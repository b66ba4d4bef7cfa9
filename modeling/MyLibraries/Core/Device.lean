import Mathlib.Data.List.Basic

/-!
# Programs that drive a device through registers

A program writes registers and reads them; what it does next may depend on what the device
answered. `Does p t a` says that `p` can do the accesses `t`, with the answers that stand in
them, and return `a`; a program that faults returns nothing. The accesses of a sequence of
programs split into theirs (`does_bind`) and settle what it returns (`does_unique`). What a
program may write and read from (`Writes`, `Reads`) bounds what stands in its accesses
(`Does.writes`, `Does.reads`).

`Whenever h x Q t` says that `Q` holds of all that was done before, each time `t` does `x`
after `h`. It is checked part by part (`whenever_append`), which is how a claim about the
order of accesses is proved: a part that never does `x` under the conditions of interest is
passed over, and in the others the parts before are known. `Upholds x Q p` is the same of a
program, whatever was done before it.

A run that faults has no result, but it has accesses, and `perform` gives them; `Ends p t o`
is `Does` for such runs too. `FaultsUnless C h p` says that the faults of `p` are those of a
condition on its accesses; a sequence of programs is checked part by part here as well
(`faultsUnless_bind`).
-/

namespace MyLibraries.Device

/-- An access: the register with the value written, or with the answer. -/
inductive Access (ρ β : Type)
  | write (reg : ρ) (val : β)
  | read (reg : ρ) (val : β)
  deriving DecidableEq, Repr

/-- Programs. -/
inductive Dev (ρ β α : Type)
  | done (a : α)
  | write (reg : ρ) (val : β) (rest : Dev ρ β α)
  | read (reg : ρ) (rest : β → Dev ρ β α)
  | fault

variable {ρ β α γ : Type}

def Dev.bind : Dev ρ β α → (α → Dev ρ β γ) → Dev ρ β γ
  | .done a, f => f a
  | .write reg val rest, f => .write reg val (rest.bind f)
  | .read reg rest, f => .read reg fun val => (rest val).bind f
  | .fault, _ => .fault

instance : Monad (Dev ρ β) where
  pure := .done
  bind := .bind

/-- Run a program on a device whose answers are `answers n`, `answers (n + 1)` and so on. -/
def run (answers : Nat → β) : Dev ρ β α → Nat → Option (List (Access ρ β) × α)
  | .done a, _ => some ([], a)
  | .write reg val rest, n =>
    (run answers rest n).map fun r => (.write reg val :: r.1, r.2)
  | .read reg rest, n =>
    (run answers (rest (answers n)) (n + 1)).map fun r => (.read reg (answers n) :: r.1, r.2)
  | .fault, _ => none

/-- The program can do these accesses and return this. -/
def Does : Dev ρ β α → List (Access ρ β) → α → Prop
  | .done a, t, b => t = [] ∧ a = b
  | .write reg val rest, t, b => ∃ t', t = .write reg val :: t' ∧ Does rest t' b
  | .read reg rest, t, b => ∃ val t', t = .read reg val :: t' ∧ Does (rest val) t' b
  | .fault, _, _ => False

/-- All that the program writes meets `P`. -/
def Writes (P : ρ → β → Prop) : Dev ρ β α → Prop
  | .done _ => True
  | .write reg val rest => P reg val ∧ Writes P rest
  | .read _ rest => ∀ val, Writes P (rest val)
  | .fault => True

/-- All that the program reads from meets `P`. -/
def Reads (P : ρ → Prop) : Dev ρ β α → Prop
  | .done _ => True
  | .write _ _ rest => Reads P rest
  | .read reg rest => P reg ∧ ∀ val, Reads P (rest val)
  | .fault => True

/-- Each time that `t` does `x` after `h`, what was done before meets `Q`. -/
def Whenever (h : List (Access ρ β)) (x : Access ρ β) (Q : List (Access ρ β) → Prop)
    (t : List (Access ρ β)) : Prop :=
  ∀ pre post, t = pre ++ x :: post → Q (h ++ pre)

/-- Each time that `p` does `x`, whatever was done before `p`, all of it meets `Q`. -/
def Upholds (x : Access ρ β) (Q : List (Access ρ β) → Prop) (p : Dev ρ β α) : Prop :=
  ∀ h t a, Does p t a → Whenever h x Q t

/-- The last access of `p` meets `L`. -/
def EndsWith (L : Access ρ β → Prop) (p : Dev ρ β α) : Prop :=
  ∀ t a, Does p t a → ∃ t' y, t = t' ++ [y] ∧ L y

/-- The accesses of a program on a device with these answers, up to its end or its fault,
and what it returns; `none` is the fault. -/
def perform (answers : Nat → β) : Dev ρ β α → Nat → List (Access ρ β) × Option α
  | .done a, _ => ([], some a)
  | .write reg val rest, n =>
    let r := perform answers rest n
    (.write reg val :: r.1, r.2)
  | .read reg rest, n =>
    let r := perform answers (rest (answers n)) (n + 1)
    (.read reg (answers n) :: r.1, r.2)
  | .fault, _ => ([], none)

/-- The program can do these accesses and then returns this, or faults. -/
def Ends : Dev ρ β α → List (Access ρ β) → Option α → Prop
  | .done a, t, o => t = [] ∧ o = some a
  | .write reg val rest, t, o => ∃ t', t = .write reg val :: t' ∧ Ends rest t' o
  | .read reg rest, t, o => ∃ val t', t = .read reg val :: t' ∧ Ends (rest val) t' o
  | .fault, t, o => t = [] ∧ o = none

/-- The program has no fault. -/
def Total : Dev ρ β α → Prop
  | .done _ => True
  | .write _ _ rest => Total rest
  | .read _ rest => ∀ val, Total (rest val)
  | .fault => False

/-- All that the program returns meets `P`. -/
def Returns (P : α → Prop) : Dev ρ β α → Prop
  | .done a => P a
  | .write _ _ rest => Returns P rest
  | .read _ rest => ∀ val, Returns P (rest val)
  | .fault => True

/-- After `h`, the program faults exactly when an access of it does not meet the condition. -/
def FaultsUnless (C : Access ρ β → List (Access ρ β) → Prop) (h : List (Access ρ β))
    (p : Dev ρ β α) : Prop :=
  ∀ t o, Ends p t o → (o ≠ none ↔ ∀ x, Whenever h x (C x) t)

variable {p : Dev ρ β α} {f : α → Dev ρ β γ} {t t₁ t₂ h : List (Access ρ β)} {a : α} {b : γ}
  {P : ρ → β → Prop} {x : Access ρ β} {Q R : List (Access ρ β) → Prop} {reg : ρ} {val : β}
  {rest : Dev ρ β α}

/-! ## What programs do -/

@[simp] theorem does_pure {a' : α} : Does (pure a : Dev ρ β α) t a' ↔ t = [] ∧ a = a' := Iff.rfl

@[simp] theorem does_fault : ¬Does (.fault : Dev ρ β α) t a := id

/-- A single read. -/
theorem does_read {g : β → α} :
    Does (.read reg fun val => .done (g val)) t a ↔ ∃ val, t = [.read reg val] ∧ a = g val := by
  constructor
  · rintro ⟨val, t', rfl, rfl, rfl⟩
    exact ⟨val, rfl, rfl⟩
  · rintro ⟨val, rfl, rfl⟩
    exact ⟨val, [], rfl, rfl, rfl⟩

/-- The accesses of a sequence. -/
theorem does_bind : Does (p >>= f) t b ↔
    ∃ t₁ t₂ a, t = t₁ ++ t₂ ∧ Does p t₁ a ∧ Does (f a) t₂ b := by
  show Does (p.bind f) t b ↔ _
  induction p generalizing t with
  | done a =>
    constructor
    · exact fun h => ⟨[], t, a, rfl, ⟨rfl, rfl⟩, h⟩
    · rintro ⟨t₁, t₂, a, rfl, ⟨rfl, rfl⟩, h⟩
      exact h
  | write reg val rest ih =>
    constructor
    · rintro ⟨t', rfl, h⟩
      obtain ⟨t₁, t₂, a, rfl, h₁, h₂⟩ := ih.mp h
      exact ⟨.write reg val :: t₁, t₂, a, rfl, ⟨t₁, rfl, h₁⟩, h₂⟩
    · rintro ⟨-, t₂, a, rfl, ⟨t₁, rfl, h₁⟩, h₂⟩
      exact ⟨t₁ ++ t₂, rfl, ih.mpr ⟨t₁, t₂, a, rfl, h₁, h₂⟩⟩
  | read reg rest ih =>
    constructor
    · rintro ⟨val, t', rfl, h⟩
      obtain ⟨t₁, t₂, a, rfl, h₁, h₂⟩ := (ih val).mp h
      exact ⟨.read reg val :: t₁, t₂, a, rfl, ⟨val, t₁, rfl, h₁⟩, h₂⟩
    · rintro ⟨-, t₂, a, rfl, ⟨val, t₁, rfl, h₁⟩, h₂⟩
      exact ⟨val, t₁ ++ t₂, rfl, (ih val).mpr ⟨t₁, t₂, a, rfl, h₁, h₂⟩⟩
  | fault => exact ⟨False.elim, fun ⟨_, _, _, _, h, _⟩ => h⟩

/-- A run does what it records. -/
theorem does_of_run {answers : Nat → β} {n : Nat} (h : run answers p n = some (t, a)) :
    Does p t a := by
  induction p generalizing n t with
  | done a' =>
    cases h
    exact ⟨rfl, rfl⟩
  | write reg val rest ih =>
    obtain ⟨⟨t', a'⟩, hrest, hend⟩ := Option.map_eq_some_iff.mp h
    cases hend
    exact ⟨t', rfl, ih hrest⟩
  | read reg rest ih =>
    obtain ⟨⟨t', a'⟩, hrest, hend⟩ := Option.map_eq_some_iff.mp h
    cases hend
    exact ⟨answers n, t', rfl, ih _ hrest⟩
  | fault => cases h

/-- What a program returns is settled by its accesses. -/
theorem does_unique {a' : α} (hd : Does p t a) (hd' : Does p t a') : a = a' := by
  induction p generalizing t with
  | done b => exact hd.2.symm.trans hd'.2
  | write reg val rest ih =>
    obtain ⟨t₁, rfl, hrest⟩ := hd
    obtain ⟨t₂, heq, hrest'⟩ := hd'
    cases heq
    exact ih hrest hrest'
  | read reg rest ih =>
    obtain ⟨val, t₁, rfl, hrest⟩ := hd
    obtain ⟨val', t₂, heq, hrest'⟩ := hd'
    cases heq
    exact ih val hrest hrest'
  | fault => cases hd

/-- A run of a sequence is a run of its first part and one of the second. -/
theorem run_bind_eq_some {answers : Nat → β} {n : Nat} (h : run answers (p >>= f) n = some (t, b)) :
    ∃ t₁ t₂ a m, run answers p n = some (t₁, a) ∧ run answers (f a) m = some (t₂, b) := by
  replace h : run answers (p.bind f) n = some (t, b) := h
  induction p generalizing n t with
  | done a => exact ⟨[], t, a, n, rfl, h⟩
  | write reg val rest ih =>
    obtain ⟨⟨t', b'⟩, hrest, hend⟩ := Option.map_eq_some_iff.mp h
    cases hend
    obtain ⟨t₁, t₂, a, m, h₁, h₂⟩ := ih hrest
    exact ⟨.write reg val :: t₁, t₂, a, m, by rw [run, h₁, Option.map_some], h₂⟩
  | read reg rest ih =>
    obtain ⟨⟨t', b'⟩, hrest, hend⟩ := Option.map_eq_some_iff.mp h
    cases hend
    obtain ⟨t₁, t₂, a, m, h₁, h₂⟩ := ih _ hrest
    exact ⟨.read reg (answers n) :: t₁, t₂, a, m, by rw [run, h₁, Option.map_some], h₂⟩
  | fault => cases h

/-! ## What programs return -/

theorem returns_bind {R : γ → Prop} (hf : ∀ a, Returns R (f a)) : Returns R (p >>= f) := by
  show Returns R (p.bind f)
  induction p with
  | done a => exact hf a
  | write reg val rest ih => exact ih
  | read reg rest ih => exact ih
  | fault => trivial

theorem Does.returns {R : α → Prop} (hd : Does p t a) (hp : Returns R p) : R a := by
  induction p generalizing t with
  | done b =>
    obtain ⟨-, rfl⟩ := hd
    exact hp
  | write reg val rest ih =>
    obtain ⟨t', -, hrest⟩ := hd
    exact ih hrest hp
  | read reg rest ih =>
    obtain ⟨val, t', -, hrest⟩ := hd
    exact ih val hrest (hp val)
  | fault => cases hd

/-! ## What programs write and read from -/

@[simp] theorem writes_pure : Writes P (pure a : Dev ρ β α) := trivial

theorem writes_bind (hp : Writes P p) (hf : ∀ a, Writes P (f a)) : Writes P (p >>= f) := by
  show Writes P (p.bind f)
  induction p with
  | done a => exact hf a
  | write reg val rest ih => exact ⟨hp.1, ih hp.2⟩
  | read reg rest ih => exact fun val => ih val (hp val)
  | fault => trivial

/-- What a program says of each of its accesses, and keeps saying behind it, holds of what it
does. -/
theorem Does.forall_mem {K : Dev ρ β α → Prop} {A : Access ρ β → Prop}
    (hwrite : ∀ reg val rest, K (.write reg val rest) → A (.write reg val) ∧ K rest)
    (hread : ∀ reg rest, K (.read reg rest) → ∀ val, A (.read reg val) ∧ K (rest val))
    (hd : Does p t a) (hp : K p) : ∀ y ∈ t, A y := by
  induction p generalizing t with
  | done a' =>
    obtain ⟨rfl, -⟩ := hd
    exact fun y hy => absurd hy List.not_mem_nil
  | write r v rest ih =>
    obtain ⟨t', rfl, hrest⟩ := hd
    obtain ⟨hA, hK⟩ := hwrite r v rest hp
    exact List.forall_mem_cons.mpr ⟨hA, ih hrest hK⟩
  | read r rest ih =>
    obtain ⟨v, t', rfl, hrest⟩ := hd
    obtain ⟨hA, hK⟩ := hread r rest hp v
    exact List.forall_mem_cons.mpr ⟨hA, ih v hrest hK⟩
  | fault => cases hd

theorem Does.writes (hd : Does p t a) (hp : Writes P p) :
    ∀ reg val, .write reg val ∈ t → P reg val := by
  intro reg val hmem
  refine hd.forall_mem (K := Writes P) (A := fun y => y = .write reg val → P reg val)
    (fun r v rest h => ⟨fun heq => ?_, h.2⟩) (fun r rest h v => ⟨fun heq => ?_, h v⟩) hp _
    hmem rfl
  · cases heq
    exact h.1
  · cases heq

theorem reads_bind {S : ρ → Prop} (hp : Reads S p) (hf : ∀ a, Reads S (f a)) :
    Reads S (p >>= f) := by
  show Reads S (p.bind f)
  induction p with
  | done a => exact hf a
  | write reg val rest ih => exact ih hp
  | read reg rest ih => exact ⟨hp.1, fun val => ih val (hp.2 val)⟩
  | fault => trivial

theorem Reads.imp {S T : ρ → Prop} (hp : Reads S p) (himp : ∀ reg, S reg → T reg) :
    Reads T p := by
  induction p with
  | done a => trivial
  | write reg val rest ih => exact ih hp
  | read reg rest ih => exact ⟨himp reg hp.1, fun val => ih val (hp.2 val)⟩
  | fault => trivial

theorem Does.reads {S : ρ → Prop} (hd : Does p t a) (hp : Reads S p) :
    ∀ reg val, .read reg val ∈ t → S reg := by
  intro reg val hmem
  refine hd.forall_mem (K := Reads S) (A := fun y => y = .read reg val → S reg)
    (fun r v rest h => ⟨fun heq => ?_, h⟩) (fun r rest h v => ⟨fun heq => ?_, h.2 v⟩) hp _
    hmem rfl
  · cases heq
  · cases heq
    exact h.1

/-! ## What was done before -/

theorem whenever_nil : Whenever h x Q [] := by
  intro pre post heq
  simp at heq

/-- **Part by part.** -/
theorem whenever_append :
    Whenever h x Q (t₁ ++ t₂) ↔ Whenever h x Q t₁ ∧ Whenever (h ++ t₁) x Q t₂ := by
  constructor
  · intro hall
    constructor
    · rintro pre post rfl
      exact hall pre (post ++ t₂) (by simp)
    · rintro pre post rfl
      rw [List.append_assoc]
      exact hall (t₁ ++ pre) post (by simp)
  · rintro ⟨hfirst, hsecond⟩ pre post heq
    rcases List.append_eq_append_iff.mp heq with ⟨mid, rfl, hmid⟩ | ⟨mid, rfl, hmid⟩
    · rw [← List.append_assoc]
      exact hsecond mid post hmid
    · cases mid with
      | nil =>
        simp only [List.append_nil] at hfirst hsecond ⊢
        simpa using hsecond [] post (by simpa using hmid.symm)
      | cons y mid =>
        obtain ⟨rfl, -⟩ := List.cons.inj hmid
        exact hfirst pre mid rfl

theorem whenever_cons {y : Access ρ β} :
    Whenever h x Q (y :: t) ↔ (y = x → Q h) ∧ Whenever (h ++ [y]) x Q t := by
  constructor
  · intro hall
    refine ⟨fun heq => ?_, fun pre post heq => ?_⟩
    · simpa using hall [] t (by rw [heq, List.nil_append])
    · rw [List.append_assoc]
      exact hall (y :: pre) post (by rw [heq, List.cons_append])
  · rintro ⟨hfirst, hrest⟩ pre post heq
    cases pre with
    | nil =>
      obtain ⟨rfl, -⟩ := List.cons.inj heq
      simpa using hfirst rfl
    | cons z pre =>
      obtain ⟨rfl, rfl⟩ := List.cons.inj heq
      simpa using hrest pre post rfl

theorem whenever_of_not_mem (hx : x ∉ t) : Whenever h x Q t := by
  rintro pre post rfl
  simp at hx

theorem Whenever.imp (hall : Whenever h x Q t)
    (himp : ∀ pre post, t = pre ++ x :: post → Q (h ++ pre) → R (h ++ pre)) :
    Whenever h x R t :=
  fun pre post heq => himp pre post heq (hall pre post heq)

theorem upholds_bind (hp : Upholds x Q p) (hf : ∀ a, Upholds x Q (f a)) :
    Upholds x Q (p >>= f) := by
  intro h t b hd
  obtain ⟨t₁, t₂, a, rfl, h₁, h₂⟩ := does_bind.mp hd
  exact whenever_append.mpr ⟨hp h t₁ a h₁, hf a (h ++ t₁) t₂ b h₂⟩

theorem Upholds.imp (hp : Upholds x Q p) (himp : ∀ t, Q t → R t) : Upholds x R p :=
  fun h t a hd pre post heq => himp _ (hp h t a hd pre post heq)

/-- A program that never writes `val` to `reg` upholds anything there. -/
theorem upholds_of_writes (hp : Writes (fun r v => ¬(r = reg ∧ v = val)) p) :
    Upholds (.write reg val) Q p :=
  fun _ _ _ hd => whenever_of_not_mem fun hmem => hd.writes hp reg val hmem ⟨rfl, rfl⟩

theorem endsWith_bind {L : Access ρ β → Prop} (hf : ∀ a, EndsWith L (f a)) :
    EndsWith L (p >>= f) := by
  intro t b hd
  obtain ⟨t₁, t₂, a, rfl, -, hd⟩ := does_bind.mp hd
  obtain ⟨t', y, rfl, hy⟩ := hf a t₂ b hd
  exact ⟨t₁ ++ t', y, (List.append_assoc _ _ _).symm, hy⟩

/-! ## Faults -/

variable {o : Option α} {C : Access ρ β → List (Access ρ β) → Prop}

theorem ends_perform (answers : Nat → β) (p : Dev ρ β α) (n : Nat) :
    Ends p (perform answers p n).1 (perform answers p n).2 := by
  induction p generalizing n with
  | done a => exact ⟨rfl, rfl⟩
  | write reg val rest ih => exact ⟨_, rfl, ih n⟩
  | read reg rest ih => exact ⟨answers n, _, rfl, ih _ (n + 1)⟩
  | fault => exact ⟨rfl, rfl⟩

theorem ends_some : Ends p t (some a) ↔ Does p t a := by
  induction p generalizing t with
  | done a' => exact and_congr Iff.rfl ⟨fun h => (Option.some.inj h).symm, fun h => h ▸ rfl⟩
  | write reg val rest ih =>
    exact exists_congr fun t' => and_congr Iff.rfl ih
  | read reg rest ih =>
    exact exists_congr fun val => exists_congr fun t' => and_congr Iff.rfl (ih val)
  | fault => exact iff_of_false (fun h => nomatch h.2) id

/-- A sequence ends in its first part, by a fault, or in its second one. -/
theorem ends_bind {o : Option γ} : Ends (p >>= f) t o ↔ (Ends p t none ∧ o = none) ∨
    ∃ t₁ t₂ a, t = t₁ ++ t₂ ∧ Does p t₁ a ∧ Ends (f a) t₂ o := by
  show Ends (p.bind f) t o ↔ _
  induction p generalizing t with
  | done a =>
    constructor
    · exact fun h => Or.inr ⟨[], t, a, rfl, ⟨rfl, rfl⟩, h⟩
    · rintro (⟨⟨-, hnone⟩, -⟩ | ⟨t₁, t₂, a, rfl, ⟨rfl, rfl⟩, h⟩)
      · cases hnone
      · exact h
  | write reg val rest ih =>
    constructor
    · rintro ⟨t', rfl, h⟩
      rcases ih.mp h with ⟨hend, rfl⟩ | ⟨t₁, t₂, a, rfl, h₁, h₂⟩
      · exact Or.inl ⟨⟨t', rfl, hend⟩, rfl⟩
      · exact Or.inr ⟨.write reg val :: t₁, t₂, a, rfl, ⟨t₁, rfl, h₁⟩, h₂⟩
    · rintro (⟨⟨t', rfl, h⟩, rfl⟩ | ⟨-, t₂, a, rfl, ⟨t₁, rfl, h₁⟩, h₂⟩)
      · exact ⟨t', rfl, ih.mpr (Or.inl ⟨h, rfl⟩)⟩
      · exact ⟨t₁ ++ t₂, rfl, ih.mpr (Or.inr ⟨t₁, t₂, a, rfl, h₁, h₂⟩)⟩
  | read reg rest ih =>
    constructor
    · rintro ⟨val, t', rfl, h⟩
      rcases (ih val).mp h with ⟨hend, rfl⟩ | ⟨t₁, t₂, a, rfl, h₁, h₂⟩
      · exact Or.inl ⟨⟨val, t', rfl, hend⟩, rfl⟩
      · exact Or.inr ⟨.read reg val :: t₁, t₂, a, rfl, ⟨val, t₁, rfl, h₁⟩, h₂⟩
    · rintro (⟨⟨val, t', rfl, h⟩, rfl⟩ | ⟨-, t₂, a, rfl, ⟨val, t₁, rfl, h₁⟩, h₂⟩)
      · exact ⟨val, t', rfl, (ih val).mpr (Or.inl ⟨h, rfl⟩)⟩
      · exact ⟨val, t₁ ++ t₂, rfl, (ih val).mpr (Or.inr ⟨t₁, t₂, a, rfl, h₁, h₂⟩)⟩
  | fault =>
    constructor
    · exact fun h => Or.inl ⟨⟨h.1, rfl⟩, h.2⟩
    · rintro (⟨⟨rfl, -⟩, rfl⟩ | ⟨_, _, _, _, h, _⟩)
      · exact ⟨rfl, rfl⟩
      · cases h

theorem total_bind (hp : Total p) (hf : ∀ a, Total (f a)) : Total (p >>= f) := by
  show Total (p.bind f)
  induction p with
  | done a => exact hf a
  | write reg val rest ih => exact ih hp
  | read reg rest ih => exact fun val => ih val (hp val)
  | fault => cases hp

theorem Total.ends (hp : Total p) (hend : Ends p t o) : ∃ a, o = some a ∧ Does p t a := by
  cases o with
  | some a => exact ⟨a, rfl, ends_some.mp hend⟩
  | none =>
    exfalso
    induction p generalizing t with
    | done a => cases hend.2
    | write reg val rest ih =>
      obtain ⟨t', -, hrest⟩ := hend
      exact ih hp hrest
    | read reg rest ih =>
      obtain ⟨val, t', -, hrest⟩ := hend
      exact ih val (hp val) hrest
    | fault => cases hp

/-- A program without a fault whose accesses meet the condition. -/
theorem Total.faultsUnless (hp : Total p) (hC : ∀ t a, Does p t a → ∀ x, Whenever h x (C x) t) :
    FaultsUnless C h p := by
  intro t o hend
  obtain ⟨a, rfl, hd⟩ := hp.ends hend
  exact iff_of_true (Option.some_ne_none a) (hC t a hd)

/-- **Part by part**, for faults. -/
theorem faultsUnless_bind (hp : FaultsUnless C h p)
    (hf : ∀ t a, Does p t a → FaultsUnless C (h ++ t) (f a)) : FaultsUnless C h (p >>= f) := by
  intro t o hend
  rcases ends_bind.mp hend with ⟨hfault, rfl⟩ | ⟨t₁, t₂, a, rfl, hd, hend⟩
  · have hfirst := hp t none hfault
    exact iff_of_false (fun hne => hne rfl) fun hall => hfirst.mpr hall rfl
  · have hfirst := (hp t₁ (some a) (ends_some.mpr hd)).mp (Option.some_ne_none a)
    rw [hf t₁ a hd t₂ o hend]
    constructor
    · exact fun hall x => whenever_append.mpr ⟨hfirst x, hall x⟩
    · exact fun hall x => (whenever_append.mp (hall x)).2

end MyLibraries.Device
