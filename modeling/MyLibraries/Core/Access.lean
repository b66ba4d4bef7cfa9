import Mathlib.Logic.Function.Basic
import MyLibraries.Core.Memory

/-!
# Programs that leave a trace of their memory accesses

A program runs over a family of memory blocks. It logs every access before it makes it,
and stops at the first one that leaves its block, so the log of a run holds the access
that went wrong. What the program hands to the outside is logged as well.

`Along P x h` says that every event of the run of `x` from the blocks `h` satisfies `P`.
It is computed through the sequencing rule `along_bind`, one access at a time.
-/

namespace MyLibraries.Access

open Memory

/-- What a program does to its surroundings. -/
inductive Event (β ω : Type)
  | read (block : β) (start size : Nat)
  | write (block : β) (start size : Nat)
  | output (o : ω)
  deriving DecidableEq, Repr

/-- The contents of the blocks. -/
abbrev Blocks (β : Type) := β → Mem

/-- A program: the events of its run, and its result and the blocks it leaves, unless an
access left its block. -/
def Prog (β ω α : Type) := Blocks β → List (Event β ω) × Option (α × Blocks β)

variable {β ω α γ : Type}

instance : Monad (Prog β ω) where
  pure a := fun h => ([], some (a, h))
  bind x f := fun h =>
    match x h with
    | (log, none) => (log, none)
    | (log, some (a, h)) => (log ++ (f a h).1, (f a h).2)

/-- The `n` bytes at `p` in the block `b`. -/
def read (b : β) (p n : Nat) : Prog β ω (List UInt8) := fun h =>
  ([.read b p n], (load (h b) p n).map fun bs => (bs, h))

/-- The `k`-byte word at `p` in the block `b`. -/
def readWord (b : β) (p k : Nat) : Prog β ω Nat := fun h =>
  ([.read b p k], (loadWord (h b) p k).map fun w => (w, h))

/-- The C string at `p` in the block `b`. Without a terminator the read runs over the end
of the block. -/
def readString (b : β) (p : Nat) : Prog β ω (List UInt8) := fun h =>
  match loadString (h b) p with
  | some s => ([.read b p (s.length + 1)], some (s, h))
  | none => ([.read b p ((h b).length - p + 1)], none)

/-- Write `bs` at `p` in the block `b`. -/
def write [DecidableEq β] (b : β) (p : Nat) (bs : List UInt8) : Prog β ω Unit := fun h =>
  ([.write b p bs.length], (store (h b) p bs).map fun m => ((), Function.update h b m))

/-- Write the low `k` bytes of `w` at `p` in the block `b`. -/
def writeWord [DecidableEq β] (b : β) (p k w : Nat) : Prog β ω Unit := write b p (leBytes k w)

/-- Hand `o` to the outside. -/
def output (o : ω) : Prog β ω Unit := fun h => ([.output o], some ((), h))

/-- Every event of the run satisfies `P`. -/
def Along (P : Event β ω → Prop) (x : Prog β ω α) (h : Blocks β) : Prop := ∀ e ∈ (x h).1, P e

/-- What a run handed to the outside, in order. -/
def outputs (log : List (Event β ω)) : List ω :=
  log.filterMap fun
    | .output o => some o
    | _ => none

variable {P : Event β ω → Prop} {x : Prog β ω α} {f : α → Prog β ω γ} {h h' : Blocks β}
  {log : List (Event β ω)} {a : α} {b : β} {p n k w : Nat} {bs : List UInt8} {m : Mem} {o : ω}

/-! ## Sequencing -/

theorem pure_run : (pure a : Prog β ω α) h = ([], some (a, h)) := rfl

theorem bind_of_some (hx : x h = (log, some (a, h'))) :
    (x >>= f) h = (log ++ (f a h').1, (f a h').2) := by
  show (match x h with | (log, none) => _ | (log, some (a, h)) => _) = _
  rw [hx]

theorem bind_of_none (hx : x h = (log, none)) : (x >>= f) h = (log, none) := by
  show (match x h with | (log, none) => _ | (log, some (a, h)) => _) = _
  rw [hx]

/-! ## The accesses inside of their block -/

theorem read_run (hb : load (h b) p n = some bs) :
    (read b p n : Prog β ω _) h = ([.read b p n], some (bs, h)) := by
  rw [read, hb, Option.map_some]

theorem readWord_run (hb : loadWord (h b) p k = some w) :
    (readWord b p k : Prog β ω _) h = ([.read b p k], some (w, h)) := by
  rw [readWord, hb, Option.map_some]

theorem readString_run (hb : loadString (h b) p = some bs) :
    (readString b p : Prog β ω _) h = ([.read b p (bs.length + 1)], some (bs, h)) := by
  rw [readString, hb]

/-- A string without a terminator. -/
theorem readString_faults (hb : loadString (h b) p = none) :
    (readString b p : Prog β ω _) h = ([.read b p ((h b).length - p + 1)], none) := by
  rw [readString, hb]

theorem write_run [DecidableEq β] (hb : store (h b) p bs = some m) :
    (write b p bs : Prog β ω _) h =
      ([.write b p bs.length], some ((), Function.update h b m)) := by
  rw [write, hb, Option.map_some]

theorem output_run : (output o : Prog β ω _) h = ([.output o], some ((), h)) := rfl

/-! ## Conditions on the events -/

theorem along_pure : Along P (pure a : Prog β ω α) h := by
  intro e he
  rw [pure_run] at he
  exact absurd he List.not_mem_nil

theorem along_of_run {r : Option (α × Blocks β)} (hx : x h = (log, r)) :
    Along P x h ↔ ∀ e ∈ log, P e := by
  unfold Along
  rw [hx]

/-- The sequencing rule, for a first part that comes to an end. -/
theorem along_bind (hx : x h = (log, some (a, h'))) :
    Along P (x >>= f) h ↔ (∀ e ∈ log, P e) ∧ Along P (f a) h' := by
  unfold Along
  rw [bind_of_some hx, List.forall_mem_append]

/-- The events of a first part are events of the whole. -/
theorem along_of_bind (hP : Along P (x >>= f) h) : Along P x h := by
  obtain ⟨log, r, hx⟩ : ∃ log r, x h = (log, r) := ⟨_, _, rfl⟩
  unfold Along at hP ⊢
  rw [hx]
  cases r with
  | none =>
    rw [bind_of_none hx] at hP
    exact hP
  | some r =>
    rw [bind_of_some hx, List.forall_mem_append] at hP
    exact hP.1

/-- Nothing happens behind the last access. -/
theorem along_then_pure {g : α → γ} : Along P (x >>= fun a => pure (g a)) h ↔ Along P x h := by
  refine ⟨along_of_bind, fun hx => ?_⟩
  obtain ⟨log, r, hrun⟩ : ∃ log r, x h = (log, r) := ⟨_, _, rfl⟩
  unfold Along at hx ⊢
  rw [hrun] at hx
  cases r with
  | none =>
    rw [bind_of_none hrun]
    exact hx
  | some r =>
    rw [bind_of_some hrun, pure_run, List.append_nil]
    exact hx

theorem along_write [DecidableEq β] :
    Along P (write b p bs) h ↔ P (.write b p bs.length) := List.forall_mem_singleton

/-! ## What a run hands to the outside -/

/-- The run of `x` from `h` comes to an end in `h'` with the result `a`, and has handed
`os` to the outside. -/
def Yields (x : Prog β ω α) (h : Blocks β) (os : List ω) (a : α) (h' : Blocks β) : Prop :=
  (x h).2 = some (a, h') ∧ outputs (x h).1 = os

theorem yields_of_run (hx : x h = (log, some (a, h'))) : Yields x h (outputs log) a h' := by
  unfold Yields
  rw [hx]
  exact ⟨rfl, rfl⟩

theorem yields_pure : Yields (pure a : Prog β ω α) h [] a h := yields_of_run pure_run

theorem yields_bind {os os' : List ω} {c : γ} {h'' : Blocks β} (hx : Yields x h os a h')
    (hf : Yields (f a) h' os' c h'') : Yields (x >>= f) h (os ++ os') c h'' := by
  obtain ⟨log, r, hrun⟩ : ∃ log r, x h = (log, r) := ⟨_, _, rfl⟩
  unfold Yields at hx hf ⊢
  rw [hrun] at hx
  obtain ⟨rfl, rfl⟩ := hx
  rw [bind_of_some hrun]
  refine ⟨hf.1, ?_⟩
  rw [outputs, List.filterMap_append, ← hf.2]
  rfl

/-- An access hands nothing to the outside. -/
theorem yields_bind_silent {os : List ω} {c : γ} {h'' : Blocks β} (hx : x h = (log, some (a, h')))
    (hlog : outputs log = []) (hf : Yields (f a) h' os c h'') : Yields (x >>= f) h os c h'' := by
  have hb := yields_bind (yields_of_run hx) hf
  rwa [hlog, List.nil_append] at hb

end MyLibraries.Access
