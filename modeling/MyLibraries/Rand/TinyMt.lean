import Mathlib.Data.Fintype.Prod
import Mathlib.Data.FinEnum
import MyLibraries.Core.Mixing
import MyLibraries.Core.Orbit

/-!
# The tiny Mersenne twister

The generator keeps four words, and of the first one it uses 31 bits. The words move up by one
and a new one comes from the first three; from the words behind it the dropped one can be
found again, its top bit with the word that was added to it. So the transition is injective on
127 bits, and as it keeps 0, a run that does not start there never gets there. The seeding does
not lead to 0: going back from three words 0 meets a constant that is not the one it starts
from.
-/

namespace MyLibraries.Rand

open Mixing

/-! ## The code -/

/-- `state`. -/
abbrev TinyMt := Vector (BitVec 32) 4

/-- The index `i & 3`. -/
def stateIndex (i : Nat) : Fin 4 := ⟨i % 4, Nat.mod_lt i (by decide)⟩

/-- What the loop of `tinymt32_init` adds to `state[i & 3]`. -/
def seedWord (i : Nat) (last : BitVec 32) : BitVec 32 :=
  BitVec.ofNat 32 i + 1812433253#32 * (last ^^^ (last >>> 30))

/-- The body of the loop of `tinymt32_init`. -/
def seedStep (state : TinyMt) (i : Nat) : TinyMt :=
  let word := state.get (stateIndex i) ^^^ seedWord i (state.get (stateIndex (i - 1)))
  state.set (stateIndex i) word (stateIndex i).isLt

/-- `tinymt32_init`. -/
def tinymt32Init (seed : BitVec 32) : TinyMt :=
  [1, 2, 3, 4, 5, 6, 7].foldl seedStep #v[seed, 0x8f7011ee#32, 0xfc78ff1f#32, 0x3793fdff#32]

/-- `tinymt32_generate`. -/
def tinymt32Generate (state : TinyMt) : BitVec 32 × TinyMt :=
  let x := (state[0] &&& 0x7fffffff#32) ^^^ state[1] ^^^ state[2]
  let x := x ^^^ (x <<< 1)
  (x, #v[state[1], state[2], state[3] ^^^ (x >>> 1), x])

/-! ## The 127 bits -/

/-- The state without the top bit of its first word. -/
abbrev Bits127 := BitVec 31 × BitVec 32 × BitVec 32 × BitVec 32

/-- The bits of a state that a call reads. -/
def bits127 (state : TinyMt) : Bits127 :=
  (state[0].setWidth 31, state[1], state[2], state[3])

/-- The new word of a call. -/
def newWord (k : Bits127) : BitVec 32 :=
  xorShiftLeft 1 (k.1.setWidth 32 ^^^ k.2.1 ^^^ k.2.2.1)

/-- What a call does to the 127 bits. -/
def next127 (k : Bits127) : Bits127 :=
  (k.2.1.setWidth 31, k.2.2.1, k.2.2.2 ^^^ (newWord k >>> 1), newWord k)

/-- The state after a number of calls. -/
def tinymt32State (seed : BitVec 32) (n : Nat) : TinyMt :=
  (fun state => (tinymt32Generate state).2)^[n] (tinymt32Init seed)

/-- The output of the call after that. -/
def tinymt32Output (seed : BitVec 32) (n : Nat) : BitVec 32 :=
  (tinymt32Generate (tinymt32State seed n)).1

variable {k l : Bits127}

/-- The mask of the first word takes its lower 31 bits. -/
theorem and_mask (a : BitVec 32) : a &&& 0x7fffffff#32 = (a.setWidth 31).setWidth 32 := by
  have hmask : ∀ i, i < 32 → (0x7fffffff#32).getLsbD i = decide (i < 31) := by decide
  apply BitVec.eq_of_getLsbD_eq
  intro i hi
  rw [BitVec.getLsbD_and, hmask i hi, BitVec.getLsbD_setWidth, BitVec.getLsbD_setWidth,
    Bool.and_comm]
  simp [hi]

theorem output_eq (state : TinyMt) : (tinymt32Generate state).1 = newWord (bits127 state) := by
  rw [tinymt32Generate, newWord, bits127, ← and_mask]
  rfl

/-- A call reads and leaves the 127 bits only. -/
theorem bits127_generate (state : TinyMt) :
    bits127 (tinymt32Generate state).2 = next127 (bits127 state) := by
  rw [next127, ← output_eq]
  rfl

/-! ## The transition -/

/-- The top bit that was dropped comes back from a word that it was added to. -/
theorem words_eq {a a' : BitVec 31} {b b' : BitVec 32} (hb : b.setWidth 31 = b'.setWidth 31)
    (hxor : a.setWidth 32 ^^^ b = a'.setWidth 32 ^^^ b') : a = a' ∧ b = b' := by
  have hlow := congrArg (BitVec.setWidth 31) hxor
  rw [BitVec.setWidth_xor, BitVec.setWidth_xor, hb, BitVec.xor_left_inj,
    BitVec.setWidth_setWidth_of_le _ (by decide), BitVec.setWidth_setWidth_of_le _ (by decide),
    BitVec.setWidth_eq, BitVec.setWidth_eq] at hlow
  subst hlow
  exact ⟨rfl, (BitVec.xor_right_inj _).mp hxor⟩

/-- **The transition is injective.** -/
theorem next127_injective : Function.Injective next127 := by
  rintro ⟨a, b, c, d⟩ ⟨a', b', c', d'⟩ h
  obtain ⟨hb, hrest⟩ := Prod.mk.inj h
  obtain ⟨hc, hrest⟩ := Prod.mk.inj hrest
  obtain ⟨hd, hnew⟩ := Prod.mk.inj hrest
  dsimp only at hb hc hd
  subst hc
  rw [hnew, BitVec.xor_left_inj] at hd
  have hxor := (BitVec.xor_left_inj c).mp (xorShiftLeft_injective (by decide) hnew)
  obtain ⟨rfl, rfl⟩ := words_eq hb hxor
  rw [hd]

theorem next127_zero : next127 0 = 0 := rfl

/-! ## The seeding -/

theorem seedStep_same (state : TinyMt) (i : Nat) :
    (seedStep state i).get (stateIndex i) =
      state.get (stateIndex i) ^^^ seedWord i (state.get (stateIndex (i - 1))) :=
  Vector.getElem_set_self _

theorem seedStep_other (state : TinyMt) {i j : Nat} (h : i % 4 ≠ j % 4) :
    (seedStep state i).get (stateIndex j) = state.get (stateIndex j) :=
  Vector.getElem_set_ne (stateIndex i).isLt (stateIndex j).isLt h

/-- A word that is 0 after its pass was what the pass adds. -/
theorem word_of_seedStep {state : TinyMt} {i : Nat}
    (h : (seedStep state i).get (stateIndex i) = 0#32) :
    state.get (stateIndex i) = seedWord i (state.get (stateIndex (i - 1))) := by
  rw [seedStep_same] at h
  exact BitVec.xor_eq_zero_iff.mp h

/-- Going back from three words 0 to the last word before it was changed. -/
theorem word_of_init {s : TinyMt}
    (h : ∀ j, j = 5 ∨ j = 6 ∨ j = 7 →
      ([3, 4, 5, 6, 7].foldl seedStep s).get (stateIndex j) = 0#32) :
    s.get (stateIndex 3) = seedWord 7 0#32 ^^^ seedWord 3 (seedWord 6 0#32) := by
  let s₃ := seedStep s 3
  let s₅ := seedStep (seedStep s₃ 4) 5
  let s₆ := seedStep s₅ 6
  have h5 : s₅.get (stateIndex 5) = 0#32 := by
    rw [← seedStep_other (i := 6) (j := 5) s₅ (by decide),
      ← seedStep_other (i := 7) (j := 5) s₆ (by decide)]
    exact h 5 (by decide)
  have h6 : s₆.get (stateIndex 6) = 0#32 := by
    rw [← seedStep_other (i := 7) (j := 6) s₆ (by decide)]
    exact h 6 (by decide)
  have hsecond : s.get (stateIndex 2) = seedWord 6 0#32 := by
    rw [← h5, ← seedStep_other (i := 3) (j := 2) s (by decide),
      ← seedStep_other (i := 4) (j := 2) s₃ (by decide),
      ← seedStep_other (i := 5) (j := 2) _ (by decide)]
    exact word_of_seedStep h6
  have hthird : s₃.get (stateIndex 3) = seedWord 7 0#32 := by
    rw [← h6, ← seedStep_other (i := 4) (j := 3) s₃ (by decide),
      ← seedStep_other (i := 5) (j := 3) _ (by decide),
      ← seedStep_other (i := 6) (j := 3) s₅ (by decide)]
    exact word_of_seedStep (h 7 (by decide))
  rw [← hthird, ← hsecond, seedStep_same, BitVec.xor_assoc]
  exact (BitVec.xor_zero.symm.trans (congrArg _ BitVec.xor_self.symm))

/-- **No seed leads to 0.** -/
theorem bits127_init_ne (seed : BitVec 32) : bits127 (tinymt32Init seed) ≠ 0 := by
  intro h
  obtain ⟨-, hrest⟩ := Prod.mk.inj h
  obtain ⟨h1, hrest⟩ := Prod.mk.inj hrest
  obtain ⟨h2, h3⟩ := Prod.mk.inj hrest
  let s := seedStep (seedStep #v[seed, 0x8f7011ee#32, 0xfc78ff1f#32, 0x3793fdff#32] 1) 2
  have hword : s.get (stateIndex 3) = seedWord 7 0#32 ^^^ seedWord 3 (seedWord 6 0#32) := by
    apply word_of_init
    rintro j (rfl | rfl | rfl)
    · exact h1
    · exact h2
    · exact h3
  have hconst : s.get (stateIndex 3) = 0x3793fdff#32 := rfl
  rw [hconst] at hword
  exact absurd hword (by decide)

/-! ## Runs -/

theorem bits127_state (seed : BitVec 32) (n : Nat) :
    bits127 (tinymt32State seed n) = next127^[n] (bits127 (tinymt32Init seed)) := by
  have hcall : Function.Semiconj bits127 (fun state => (tinymt32Generate state).2) next127 :=
    bits127_generate
  exact hcall.iterate_right n (tinymt32Init seed)

theorem bits127_state_ne (seed : BitVec 32) (n : Nat) : bits127 (tinymt32State seed n) ≠ 0 := by
  rw [bits127_state]
  exact Orbit.iterate_ne_fixed next127_injective next127_zero (bits127_init_ne seed) n

theorem output_state (seed : BitVec 32) (n : Nat) :
    tinymt32Output seed n = newWord (next127^[n] (bits127 (tinymt32Init seed))) := by
  rw [tinymt32Output, output_eq, bits127_state]

/-- A call with the output 0 only moves the words. -/
theorem next127_of_silent (h : newWord k = 0#32) :
    next127 k = (k.2.1.setWidth 31, k.2.2.1, k.2.2.2, 0#32) := by
  rw [next127, h]
  simp

/-- Four outputs 0 move the state out of its words. -/
theorem iterate_of_silent (h : ∀ n, n < 4 → newWord (next127^[n] k) = 0#32) :
    next127^[4] k = 0 := by
  have h0 : next127^[1] k = _ := next127_of_silent (h 0 (by decide))
  have h1 : next127^[2] k = _ := (Function.iterate_succ_apply' next127 1 k).trans
    (next127_of_silent (h 1 (by decide)))
  have h2 : next127^[3] k = _ := (Function.iterate_succ_apply' next127 2 k).trans
    (next127_of_silent (h 2 (by decide)))
  have h3 : next127^[4] k = _ := (Function.iterate_succ_apply' next127 3 k).trans
    (next127_of_silent (h 3 (by decide)))
  rw [h3, h2, h1, h0]
  rfl

/-- **The generator never gets stuck.** The transition is one of the 127 bits, and injective;
from no seed are they ever all 0, every run goes round, and the output does not stay 0. -/
theorem tinymt32_never_stuck :
    Function.Injective next127 ∧
    (∀ state, bits127 (tinymt32Generate state).2 = next127 (bits127 state)) ∧
    ∀ seed, (∀ n, bits127 (tinymt32State seed n) ≠ 0) ∧
      (∃ p, 0 < p ∧ ∀ n, bits127 (tinymt32State seed (n + p)) = bits127 (tinymt32State seed n) ∧
        tinymt32Output seed (n + p) = tinymt32Output seed n) ∧
      ∀ n, ∃ m, n ≤ m ∧ tinymt32Output seed m ≠ 0#32 := by
  refine ⟨next127_injective, bits127_generate, fun seed => ⟨bits127_state_ne seed, ?_, ?_⟩⟩
  · obtain ⟨p, hp, hback⟩ := Orbit.exists_period next127_injective (bits127 (tinymt32Init seed))
    refine ⟨p, hp, fun n => ⟨?_, ?_⟩⟩
    · rw [bits127_state, bits127_state, hback]
    · rw [output_state, output_state, hback]
  · intro n
    by_contra hsilent
    push Not at hsilent
    refine bits127_state_ne seed (n + 4) ?_
    rw [bits127_state, Nat.add_comm, Function.iterate_add_apply]
    apply iterate_of_silent
    intro m hm
    rw [← Function.iterate_add_apply, ← output_state]
    exact hsilent (m + n) (Nat.le_add_left n m)

example : tinymt32Output 1#32 0 = 0x76105b22#32 := by decide

end MyLibraries.Rand
