import Mathlib.Data.BitVec
import Mathlib.Tactic.IntervalCases

/-!
# Byte order

The templates of `bitops.h` that convert a value between the byte order of the machine and a
given one. They swap the bytes of types of 2, 4 and 8 bytes and return all others as they
are. For these sizes, and for single bytes, the bytes in memory of a converted value do not
depend on the machine; for other sizes they do (`crosses_iff`).
-/

namespace MyLibraries.Bitops

/-! ## The code -/

/-- `Endian`. -/
inductive Endian
  | little
  | big
  deriving DecidableEq, Repr

/-- The swap of 16 bits. -/
def swap16 (u16 : BitVec 16) : BitVec 16 := u16 >>> 8 ||| u16 <<< 8

/-- The swap of 32 bits. -/
def swap32 (u32 : BitVec 32) : BitVec 32 :=
  (u32 >>> 24 &&& 0x000000FF#32) ||| (u32 >>> 8 &&& 0x0000FF00#32) |||
    (u32 <<< 8 &&& 0x00FF0000#32) ||| (u32 <<< 24 &&& 0xFF000000#32)

/-- The swap of 64 bits. -/
def swap64 (u64 : BitVec 64) : BitVec 64 :=
  (u64 >>> 56 &&& 0x00000000000000FF#64) ||| (u64 >>> 40 &&& 0x000000000000FF00#64) |||
    (u64 >>> 24 &&& 0x0000000000FF0000#64) ||| (u64 >>> 8 &&& 0x00000000FF000000#64) |||
    (u64 <<< 8 &&& 0x000000FF00000000#64) ||| (u64 <<< 24 &&& 0x0000FF0000000000#64) |||
    (u64 <<< 40 &&& 0x00FF000000000000#64) ||| (u64 <<< 56 &&& 0xFF00000000000000#64)

/-- The swap that the templates choose by `sizeof(T)`. -/
def swapBySize : (size : Nat) → BitVec (8 * size) → BitVec (8 * size)
  | 2, value => swap16 value
  | 4, value => swap32 value
  | 8, value => swap64 value
  | _, value => value

/-- `BigEndianToNative`, on a machine with the given `IS_LITTLE_ENDIAN`. -/
def bigEndianToNative (isLittleEndian : Bool) (size : Nat) (value : BitVec (8 * size)) :
    BitVec (8 * size) :=
  if isLittleEndian then swapBySize size value else value

/-- `LittleEndianToNative`. -/
def littleEndianToNative (isLittleEndian : Bool) (size : Nat) (value : BitVec (8 * size)) :
    BitVec (8 * size) :=
  if !isLittleEndian then swapBySize size value else value

/-- `NativeTo`. -/
def nativeTo (isLittleEndian : Bool) (targetLayout : Endian) (size : Nat)
    (value : BitVec (8 * size)) : BitVec (8 * size) :=
  if targetLayout = .big then bigEndianToNative isLittleEndian size value
  else littleEndianToNative isLittleEndian size value

/-- `ToNative`. -/
def toNative (isLittleEndian : Bool) (sourceLayout : Endian) (size : Nat)
    (value : BitVec (8 * size)) : BitVec (8 * size) :=
  if sourceLayout = .big then bigEndianToNative isLittleEndian size value
  else littleEndianToNative isLittleEndian size value

/-! ## Memory -/

variable {size : Nat} {value other : BitVec (8 * size)}

/-- A byte of a value, the least significant first. -/
def byteAt (value : BitVec (8 * size)) (k : Nat) : BitVec 8 := value.extractLsb' (8 * k) 8

/-- The bytes of a value, the least significant first. -/
def bytes (value : BitVec (8 * size)) : List (BitVec 8) := (List.range size).map (byteAt value)

/-- The bytes of a value in a layout. -/
def layout (l : Endian) (value : BitVec (8 * size)) : List (BitVec 8) :=
  match l with
  | .little => bytes value
  | .big => (bytes value).reverse

/-- The layout of a machine. -/
def native (isLittleEndian : Bool) : Endian := if isLittleEndian then .little else .big

/-- The bytes that a machine has in memory for a value. -/
def memory (isLittleEndian : Bool) (value : BitVec (8 * size)) : List (BitVec 8) :=
  layout (native isLittleEndian) value

/-- The templates know how to convert values of the size. -/
def Convertible (size : Nat) : Prop := size ≤ 2 ∨ size = 4 ∨ size = 8

instance (size : Nat) : Decidable (Convertible size) := inferInstanceAs (Decidable (_ ∨ _))

@[simp] theorem length_bytes (value : BitVec (8 * size)) : (bytes value).length = size := by
  simp [bytes]

@[simp] theorem getElem_bytes (value : BitVec (8 * size)) {k : Nat}
    (hk : k < (bytes value).length) : (bytes value)[k] = byteAt value k := by
  simp [bytes]

theorem bytes_injective (h : bytes value = bytes other) : value = other := by
  apply BitVec.eq_of_getLsbD_eq
  intro i hi
  have hbyte : byteAt value (i / 8) = byteAt other (i / 8) := by
    rw [← getElem_bytes value (by rw [length_bytes]; omega),
      ← getElem_bytes other (by rw [length_bytes]; omega)]
    simp only [h]
  have hbit := congrArg (fun byte => byte.getLsbD (i % 8)) hbyte
  simp only [byteAt, BitVec.getLsbD_extractLsb', Nat.mod_lt i (show 8 > 0 by decide), decide_true,
    Bool.true_and, Nat.div_add_mod] at hbit
  exact hbit

theorem layout_injective {l : Endian} (h : layout l value = layout l other) : value = other := by
  cases l with
  | little => exact bytes_injective h
  | big => exact bytes_injective (List.reverse_injective h)

/-! ## Swaps -/

/-- The bytes of the result are those of the value in the other order. -/
def Reverses (size : Nat) (f : BitVec (8 * size) → BitVec (8 * size)) : Prop :=
  ∀ value, bytes (f value) = (bytes value).reverse

theorem reverses_of_bits {f : BitVec (8 * size) → BitVec (8 * size)}
    (h : ∀ value k i, k < size → i < 8 →
      (f value).getLsbD (8 * k + i) = value.getLsbD (8 * (size - 1 - k) + i)) :
    Reverses size f := by
  intro value
  apply List.ext_getElem
  · simp
  · intro k hk _
    rw [length_bytes] at hk
    rw [getElem_bytes, List.getElem_reverse, getElem_bytes, length_bytes]
    apply BitVec.eq_of_getLsbD_eq
    intro i hi
    simp only [byteAt, BitVec.getLsbD_extractLsb', hi, decide_true, Bool.true_and]
    exact h value k i hk hi

theorem swap16_reverses : Reverses 2 swap16 := by
  apply reverses_of_bits
  intro value k i hk hi
  interval_cases k <;> interval_cases i <;> simp [swap16]

theorem swap32_reverses : Reverses 4 swap32 := by
  apply reverses_of_bits
  intro value k i hk hi
  interval_cases k <;> interval_cases i <;> simp [swap32]

theorem swap64_reverses : Reverses 8 swap64 := by
  apply reverses_of_bits
  intro value k i hk hi
  interval_cases k <;> interval_cases i <;> simp [swap64]

/-- A value of one byte at most is the same in both orders. -/
theorem bytes_reverse (h : size ≤ 1) (value : BitVec (8 * size)) :
    (bytes value).reverse = bytes value := by
  unfold bytes
  interval_cases size <;> rfl

theorem swapBySize_reverses (h : Convertible size) : Reverses size (swapBySize size) := by
  have hsmall : ∀ size, size ≤ 1 → Reverses size (swapBySize size) := by
    intro size hsize value
    rw [bytes_reverse hsize]
    interval_cases size <;> rfl
  obtain hsize | rfl | rfl := h
  · by_cases htwo : size = 2
    · subst htwo
      exact swap16_reverses
    · exact hsmall size (by omega)
  · exact swap32_reverses
  · exact swap64_reverses

theorem swapBySize_of_not (h : ¬Convertible size) (value : BitVec (8 * size)) :
    swapBySize size value = value := by
  unfold swapBySize
  split <;> first | rfl | exact absurd (by decide) h

/-! ## Conversions -/

/-- A conversion swaps exactly when the layout is not that of the machine. -/
theorem nativeTo_eq (isLittleEndian : Bool) (l : Endian) (value : BitVec (8 * size)) :
    nativeTo isLittleEndian l size value =
      if native isLittleEndian = l then value else swapBySize size value := by
  cases isLittleEndian <;> cases l <;> rfl

theorem toNative_eq (isLittleEndian : Bool) (l : Endian) (value : BitVec (8 * size)) :
    toNative isLittleEndian l size value = nativeTo isLittleEndian l size value := rfl

theorem layout_swap (h : Convertible size) {l m : Endian} (hne : l ≠ m)
    (value : BitVec (8 * size)) : layout l (swapBySize size value) = layout m value := by
  have hswap := swapBySize_reverses h value
  cases l <;> cases m <;> first | exact absurd rfl hne | skip
  · exact hswap
  · exact (congrArg List.reverse hswap).trans (List.reverse_reverse _)

/-- **The memory of a converted value** is the value in the layout asked for. -/
theorem memory_nativeTo (h : Convertible size) (isLittleEndian : Bool) (l : Endian)
    (value : BitVec (8 * size)) :
    memory isLittleEndian (nativeTo isLittleEndian l size value) = layout l value := by
  rw [memory, nativeTo_eq]
  split
  · rename_i hsame
    rw [hsame]
  · rename_i hne
    exact layout_swap h hne value

/-- And the other way around. -/
theorem layout_toNative (h : Convertible size) (isLittleEndian : Bool) (l : Endian)
    (value : BitVec (8 * size)) :
    layout l (toNative isLittleEndian l size value) = memory isLittleEndian value := by
  rw [memory, toNative_eq, nativeTo_eq]
  split
  · rename_i hsame
    rw [hsame]
  · rename_i hne
    exact layout_swap h (Ne.symm hne) value

/-- What one machine writes converted to a layout, another one that finds these bytes in its
memory converts back to the value. -/
def Crosses (size : Nat) : Prop :=
  ∀ (writer reader : Bool) (l : Endian) (value found : BitVec (8 * size)),
    memory reader found = memory writer (nativeTo writer l size value) →
      toNative reader l size found = value

theorem byteAt_twoPow {j k : Nat} (hj : j < size) :
    byteAt (BitVec.twoPow (8 * size) (8 * j)) k = if k = j then 1#8 else 0#8 := by
  apply BitVec.eq_of_getLsbD_eq
  intro i hi
  simp only [byteAt, BitVec.getLsbD_extractLsb', hi, decide_true, Bool.true_and,
    BitVec.getLsbD_twoPow]
  split
  · rename_i hk
    rw [hk, BitVec.getLsbD_one]
    have hlt : 8 * j < 8 * size := by omega
    simp only [hlt, decide_true, Bool.true_and]
    simp
  · rename_i hk
    rw [BitVec.getLsbD_zero, Bool.and_eq_false_iff]
    right
    simp only [decide_eq_false_iff_not]
    omega

/-- **Values cross between all machines**, written and read in the same layout, exactly when
they have 0, 1, 2, 4 or 8 bytes. -/
theorem crosses_iff (size : Nat) : Crosses size ↔ Convertible size := by
  constructor
  · intro hcross
    by_contra h
    have hsize : 1 < size := by
      by_contra hle
      exact h (.inl (by omega))
    -- the same bytes are two values on the two machines, and neither is converted
    have hmemory : memory false (BitVec.twoPow (8 * size) (8 * (size - 1))) =
        memory true (nativeTo true .little size (BitVec.twoPow (8 * size) (8 * 0))) := by
      rw [nativeTo_eq, if_pos (by decide)]
      show (bytes _).reverse = bytes _
      apply List.ext_getElem
      · simp
      · intro k hk _
        have hk : k < size := by simpa using hk
        rw [List.getElem_reverse, getElem_bytes, getElem_bytes, length_bytes,
          byteAt_twoPow (by omega), byteAt_twoPow (by omega)]
        congr 1
        rw [eq_iff_iff]
        omega
    have hvalue := hcross true false .little _ _ hmemory
    rw [toNative_eq, nativeTo_eq, if_neg (by decide), swapBySize_of_not h] at hvalue
    have hbyte := congrArg (byteAt · 0) hvalue
    simp only [byteAt_twoPow (show size - 1 < size by omega),
      byteAt_twoPow (show 0 < size by omega)] at hbyte
    rw [if_neg (by omega), if_pos trivial] at hbyte
    exact absurd hbyte (by decide)
  · intro h writer reader l value found hfound
    apply layout_injective (l := l)
    rw [layout_toNative h, hfound, memory_nativeTo h]

end MyLibraries.Bitops
