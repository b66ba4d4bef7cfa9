import MyLibraries.Core.Mixing

/-!
# Hashes of names

`hash.h` has two functions named `Hash`: a template that takes in the characters of a name
one by one, and one over a `CstrView` that takes in blocks of four characters and then the
one to three that are left. `hash.c` has `fnv1a_hash`. A `char` is signed here: where the
source widens one without a cast its sign goes along.

Each step of the template and of `fnv1a_hash` multiplies with an odd number and adds the
character, so it mixes: close names have different hashes (`hashes_separate_names`).
-/

namespace MyLibraries.Hash

open Mixing

/-- `uint32_t x = c` for a signed `char c`. -/
def charToU32 (c : UInt8) : BitVec 32 := c.toBitVec.signExtend 32

/-- `uint32_t x = c` for a `uint8_t c`. -/
def byteToU32 (c : UInt8) : BitVec 32 := c.toBitVec.setWidth 32

/-! ## Character by character -/

/-- The body of the loop of the template `Hash`. -/
def templateHashStep (h : BitVec 32) (c : UInt8) : BitVec 32 := (h * 33#32) ^^^ byteToU32 c

/-- The template `Hash` of the characters before the terminating zero. -/
def templateHash (s : List UInt8) : BitVec 32 := s.foldl templateHashStep 5381#32

/-- The body of the loop of `fnv1a_hash`. -/
def fnv1aHashStep (hash : BitVec 32) (byte : UInt8) : BitVec 32 :=
  (hash ^^^ byteToU32 byte) * 16777619#32

def fnv1aHash (bytes : List UInt8) : BitVec 32 := bytes.foldl fnv1aHashStep 2166136261#32

/-! ## Block by block -/

/-- A key, without the terminating zero of its array. -/
structure CstrView where
  str : List UInt8
deriving DecidableEq

namespace CstrView

def size (key : CstrView) : Nat := key.str.length

def getBlock32 (key : CstrView) (index : Nat) : BitVec 32 :=
  let i := index * 4
  let b0 := charToU32 (key.str.getD i 0)
  let b1 := charToU32 (key.str.getD (i + 1) 0)
  let b2 := charToU32 (key.str.getD (i + 2) 0)
  let b3 := charToU32 (key.str.getD (i + 3) 0)
  (b3 <<< 24) ||| (b2 <<< 16) ||| (b1 <<< 8) ||| b0

def blockSize32 (key : CstrView) : Nat := key.size / 4

def tail32 (key : CstrView) (index : Nat) : UInt8 :=
  let tailSize := key.size % 4
  key.str.getD (key.size - tailSize + index) 0

end CstrView

def hashM : BitVec 32 := 0x5bd1e995

/-- What `Hash` makes of a block before it takes it in. -/
def mixBlock (k : BitVec 32) : BitVec 32 := xorShift 24 (k * hashM) * hashM

/-- The body of the loop over the blocks in `Hash`. -/
def hashBlock (h k : BitVec 32) : BitVec 32 := (h * hashM) ^^^ mixBlock k

/-- The `switch` over the number of characters left, each case falling through. -/
def hashTail (key : CstrView) (h : BitVec 32) : BitVec 32 :=
  match key.size &&& 3 with
  | 3 =>
    (h ^^^ (charToU32 (key.tail32 2) <<< 16) ^^^ (charToU32 (key.tail32 1) <<< 8) ^^^
      charToU32 (key.tail32 0)) * hashM
  | 2 => (h ^^^ (charToU32 (key.tail32 1) <<< 8) ^^^ charToU32 (key.tail32 0)) * hashM
  | 1 => (h ^^^ charToU32 (key.tail32 0)) * hashM
  | _ => h

/-- The last three lines of `Hash`. -/
def hashFinish (h : BitVec 32) : BitVec 32 := xorShift 15 (xorShift 13 h * hashM)

/-- `Hash` of a view; the `size_t` it returns holds these 32 bits. -/
def CstrView.hash (key : CstrView) : BitVec 32 :=
  let h := BitVec.ofNat 32 key.size
  let h := (List.range key.blockSize32).foldl (fun h i => hashBlock h (key.getBlock32 i)) h
  hashFinish (hashTail key h)

/-! ## The steps lose nothing -/

theorem byteToU32_injective : Function.Injective byteToU32 := by
  intro a b hab
  apply UInt8.toBitVec_inj.mp
  have hback := congrArg (BitVec.setWidth 8) hab
  simpa [byteToU32] using hback

theorem templateHashStep_mixes : Mixes templateHashStep where
  state c := (xor_left_injective _).comp (mul_injective (l := 0x3e0f83e1) (by decide))
  value h := (xor_right_injective _).comp byteToU32_injective

theorem fnv1aHashStep_mixes : Mixes fnv1aHashStep where
  state byte := (mul_injective (l := 0x359c449b) (by decide)).comp (xor_left_injective _)
  value hash :=
    (mul_injective (l := 0x359c449b) (by decide)).comp
      ((xor_right_injective _).comp byteToU32_injective)

theorem mul_hashM_injective : Function.Injective fun a : BitVec 32 => a * hashM :=
  mul_injective (l := 0xe59b19bd) (by decide)

theorem mixBlock_injective : Function.Injective mixBlock :=
  mul_hashM_injective.comp ((xorShift_injective (by decide)).comp mul_hashM_injective)

theorem hashBlock_mixes : Mixes hashBlock where
  state _ := (xor_left_injective _).comp mul_hashM_injective
  value _ := (xor_right_injective _).comp mixBlock_injective

theorem hashTail_injective (key : CstrView) : Function.Injective (hashTail key) := by
  intro a b hab
  unfold hashTail at hab
  split at hab
  · exact xor_left_injective _ (xor_left_injective _ (xor_left_injective _
      (mul_hashM_injective hab)))
  · exact xor_left_injective _ (xor_left_injective _ (mul_hashM_injective hab))
  · exact xor_left_injective _ (mul_hashM_injective hab)
  · exact hab

theorem hashFinish_injective : Function.Injective hashFinish :=
  (xorShift_injective (by decide)).comp
    (mul_hashM_injective.comp (xorShift_injective (by decide)))

/-! ## Close names -/

/-- **One character that differs changes the hash.** -/
theorem hashes_separate_names (a b : List UInt8) (hlen : a.length = b.length)
    (hone : ∃! i : Nat, a[i]? ≠ b[i]?) :
    templateHash a ≠ templateHash b ∧ fnv1aHash a ≠ fnv1aHash b :=
  ⟨templateHashStep_mixes.foldl_ne hlen hone, fnv1aHashStep_mixes.foldl_ne hlen hone⟩

/-- The names `"in1"` and `"in2"`. -/
theorem hashes_separate_names_inputs :
    templateHash [0x69, 0x6E, 0x31] ≠ templateHash [0x69, 0x6E, 0x32] ∧
      fnv1aHash [0x69, 0x6E, 0x31] ≠ fnv1aHash [0x69, 0x6E, 0x32] := by
  refine hashes_separate_names [0x69, 0x6E, 0x31] [0x69, 0x6E, 0x32] rfl ⟨2, by decide, ?_⟩
  intro i hi
  rcases i with _ | _ | _ | i
  · exact absurd rfl hi
  · exact absurd rfl hi
  · rfl
  · exact absurd rfl hi

end MyLibraries.Hash
