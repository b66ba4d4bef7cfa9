import Mathlib.Data.Nat.Find
import MyLibraries.FileOps.Model

/-!
# The value of a column

`std::from_chars` takes the longest beginning of a text that is a numeral, and says where it
ends. `ParsedValue` asks only whether there was one: what is behind it is lost
(`faithful_iff`). How a `float` is rounded is left open; a numeral out of its range has none.
-/

namespace MyLibraries.FileOps

/-! ## Numerals -/

def isDigit (c : UInt8) : Bool := 48 ≤ c && c ≤ 57

def isDigits (s : List UInt8) : Bool := s ≠ [] && s.all isDigit

/-- Without a `'-'` in front. -/
def unsigned : List UInt8 → List UInt8
  | [] => []
  | c :: s => if c = 45 then s else c :: s

/-- What `std::from_chars` takes for an `int`. -/
def isInteger (s : List UInt8) : Bool := isDigits (unsigned s)

/-- Digits, of which there is one, with one `'.'` at most. -/
def isFixed (s : List UInt8) : Bool :=
  s.any isDigit && s.all (fun c => isDigit c || c == 46) && s.count 46 ≤ 1

/-- `'e'` or `'E'`. -/
def isE (c : UInt8) : Bool := c == 101 || c == 69

/-- An exponent, with its sign, or none. -/
def isExponent : List UInt8 → Bool
  | [] => true
  | _ :: [] => false
  | _ :: c :: s => if c = 43 ∨ c = 45 then isDigits s else isDigits (c :: s)

/-- A number in the fixed or the scientific form. -/
def isDecimal (s : List UInt8) : Bool :=
  isFixed ((unsigned s).takeWhile (!isE ·)) && isExponent ((unsigned s).dropWhile (!isE ·))

def toLower (c : UInt8) : UInt8 := if 65 ≤ c ∧ c ≤ 90 then c + 32 else c

/-- A digit, a small letter or `'_'`. -/
def isNChar (c : UInt8) : Bool := isDigit c || (97 ≤ c && c ≤ 122) || c == 95

/-- `nan`, or `nan(..)`. -/
def isNan : List UInt8 → Bool
  | [110, 97, 110] => true
  | 110 :: 97 :: 110 :: 40 :: s => s.getLast? == some 41 && s.dropLast.all isNChar
  | _ => false

/-- `inf`, `infinity` or `nan`, whatever the case. -/
def isSpecial (s : List UInt8) : Bool :=
  let s := (unsigned s).map toLower
  s == [105, 110, 102] || s == [105, 110, 102, 105, 110, 105, 116, 121] || isNan s

/-- What `std::from_chars` takes for a `float`. -/
def isFloating (s : List UInt8) : Bool := isDecimal s || isSpecial s

/-- The value of an integer. -/
def integerValue (s : List UInt8) : Int :=
  let n : Nat := (unsigned s).foldl (fun n c => 10 * n + (c.toNat - 48)) 0
  if s.head? = some 45 then -n else n

/-- The value as an `int`, if it is in range. -/
def toInt (s : List UInt8) : Option Int :=
  if -2147483648 ≤ integerValue s ∧ integerValue s ≤ 2147483647 then some (integerValue s)
  else none

/-! ## Fields -/

/-- The `std::errc` of `std::from_chars`. -/
inductive Errc
  | success
  | invalidArgument
  | resultOutOfRange
  deriving DecidableEq, Repr

/-- `std::from_chars`: what `value` holds, `ptr` as an offset, and `ec`. -/
def fromChars {T : Type} (pattern : List UInt8 → Bool) (convert : List UInt8 → Option T)
    (str : List UInt8) (value : T) : T × Nat × Errc :=
  let ptr := Nat.findGreatest (fun n => pattern (str.take n) = true) str.length
  if ptr = 0 then (value, 0, .invalidArgument)
  else
    match convert (str.take ptr) with
    | none => (value, ptr, .resultOutOfRange)
    | some value => (value, ptr, .success)

/-- `isFloat`. -/
def isFloat (str : List UInt8) : Bool := str.contains 46

/-- `CSVFile::ParsedValue`. -/
inductive ParsedValue (F : Type)
  | string (str : List UInt8)
  | int (value : Int)
  | float (value : F)
  deriving DecidableEq, Repr

variable {F : Type}

/-- The constructor of `ParsedValue` behind the attempt with a `float`. -/
def intOrString (str : List UInt8) : ParsedValue F :=
  let result := fromChars isInteger toInt str 0
  if result.2.2 = .success then .int result.1 else .string str

/-- The constructor of `ParsedValue`; `toFloat` gives the `float` of a numeral, and `zero` is
`0.0f`. -/
def parsedValue (toFloat : List UInt8 → Option F) (zero : F) (str : List UInt8) : ParsedValue F :=
  if isFloat str then
    let result := fromChars isFloating toFloat str zero
    if result.2.2 = .success then .float result.1 else intOrString str
  else intOrString str

/-- A value is that of the whole field. -/
def Faithful (field : List UInt8) : ParsedValue F → Prop
  | .int value => isInteger field ∧ value = integerValue field
  | .float _ => isDecimal field ∧ isFloat field
  | .string str => str = field

/-- The longest numeral that the text begins with has `n` bytes. -/
def Longest (pattern : List UInt8 → Bool) (str : List UInt8) (n : Nat) : Prop :=
  n ≤ str.length ∧ pattern (str.take n) ∧ ∀ m ≤ str.length, pattern (str.take m) → m ≤ n

/-- The text begins with a numeral of `n` bytes that can be converted. -/
def Begins {T : Type} (pattern : List UInt8 → Bool) (convert : List UInt8 → Option T)
    (str : List UInt8) (n : Nat) : Prop :=
  Longest pattern str n ∧ (convert (str.take n)).isSome

/-- The number that the field begins with, if there is one, is the field. -/
def WholeNumber (toFloat : List UInt8 → Option F) (field : List UInt8) : Prop :=
  (isFloat field → ∀ n, Begins isFloating toFloat field n → n = field.length) ∧
    ((isFloat field → ∀ n, ¬ Begins isFloating toFloat field n) →
      ∀ n, Begins isInteger toInt field n → n = field.length)

variable {T : Type} {pattern : List UInt8 → Bool} {convert : List UInt8 → Option T}
  {str field : List UInt8} {n m : Nat}

/-! ## The longest numeral -/

theorem Longest.unique (h : Longest pattern str n) (h' : Longest pattern str m) : n = m :=
  Nat.le_antisymm (h'.2.2 n h.1 h.2.1) (h.2.2 m h'.1 h'.2.1)

/-- A text that is a numeral is the longest one that it begins with. -/
theorem longest_length (h : pattern str) : Longest pattern str str.length := by
  refine ⟨Nat.le_refl _, ?_, fun m hm _ => hm⟩
  rw [List.take_length]
  exact h

theorem longest_findGreatest (h : Longest pattern str n) :
    Nat.findGreatest (fun n => pattern (str.take n) = true) str.length = n := by
  rw [Nat.findGreatest_eq_iff]
  exact ⟨h.1, fun _ => h.2.1, fun m hlt hm hp => absurd (h.2.2 m hm hp) (Nat.not_le.mpr hlt)⟩

theorem findGreatest_longest
    (h : Nat.findGreatest (fun n => pattern (str.take n) = true) str.length = n) (hn : n ≠ 0) :
    Longest pattern str n := by
  rw [Nat.findGreatest_eq_iff] at h
  obtain ⟨hle, hp, hmax⟩ := h
  refine ⟨hle, hp hn, fun m hm hpm => ?_⟩
  by_contra hlt
  exact hmax (Nat.not_le.mp hlt) hm hpm

/-- **`std::from_chars`** succeeds with what the text begins with. -/
theorem fromChars_success (hnil : pattern [] = false) (value : T)
    (h : Begins pattern convert str n) :
    ∃ x, convert (str.take n) = some x ∧
      fromChars pattern convert str value = (x, n, .success) := by
  obtain ⟨hlongest, hsome⟩ := h
  obtain ⟨x, hx⟩ := Option.isSome_iff_exists.mp hsome
  have hn : n ≠ 0 := by
    rintro rfl
    have := hlongest.2.1
    rw [List.take_zero, hnil] at this
    cases this
  refine ⟨x, hx, ?_⟩
  unfold fromChars
  dsimp only
  rw [longest_findGreatest hlongest, if_neg hn, hx]

theorem fromChars_failure (value : T) (h : ∀ n, ¬ Begins pattern convert str n) :
    (fromChars pattern convert str value).2.2 ≠ .success := by
  unfold fromChars
  dsimp only
  generalize hptr : Nat.findGreatest (fun n => pattern (str.take n) = true) str.length = ptr
  split
  · exact fun h => Errc.noConfusion h
  · rename_i hne
    split
    · exact fun h => Errc.noConfusion h
    · rename_i x hx
      refine absurd ⟨findGreatest_longest hptr hne, ?_⟩ (h ptr)
      rw [hx]
      rfl

/-! ## What the numerals have -/

theorem isInteger_nil : isInteger [] = false := rfl

theorem isFloating_nil : isFloating [] = false := by decide

theorem mem_unsigned {c : UInt8} (hc : c ≠ 45) (h : c ∈ str) : c ∈ unsigned str := by
  cases str with
  | nil => exact h
  | cons b s =>
    rw [unsigned]
    split
    · rename_i hb
      exact (List.mem_cons.mp h).resolve_left fun heq => hc (heq.trans hb)
    · exact h

theorem not_isNan (h : 46 ∈ str) : isNan str = false := by
  unfold isNan
  split
  · exact absurd h (by decide)
  · rename_i s
    have hs : 46 ∈ s := by simpa using h
    by_contra hnan
    rw [Bool.not_eq_false, Bool.and_eq_true, beq_iff_eq] at hnan
    obtain ⟨hlast, hall⟩ := hnan
    have hsplit := List.dropLast_append_getLast? 41 hlast
    rw [← hsplit] at hs
    have hmem : 46 ∈ s.dropLast := by
      rcases List.mem_append.mp hs with hmem | hmem
      · exact hmem
      · exact absurd hmem (by decide)
    exact absurd (List.all_eq_true.mp hall 46 hmem) (by decide)
  · rfl

/-- No special number has a `'.'`. -/
theorem isDecimal_of_isFloating (h : isFloating str) (hpoint : isFloat str) : isDecimal str := by
  have hmem : 46 ∈ (unsigned str).map toLower :=
    List.mem_map.mpr ⟨46, mem_unsigned (by decide) (List.contains_iff_mem.mp hpoint), rfl⟩
  have hspecial : isSpecial str = false := by
    unfold isSpecial
    dsimp only
    rw [not_isNan hmem, Bool.or_false, Bool.or_eq_false_iff, beq_eq_false_iff_ne,
      beq_eq_false_iff_ne]
    refine ⟨fun heq => ?_, fun heq => ?_⟩
    · rw [heq] at hmem
      exact absurd hmem (by decide)
    · rw [heq] at hmem
      exact absurd hmem (by decide)
  rw [isFloating, hspecial, Bool.or_false] at h
  exact h

/-! ## Fields -/

/-- An attempt with an `int`. -/
theorem intOrString_faithful_iff (field : List UInt8) :
    Faithful field (intOrString field : ParsedValue F) ↔
      ∀ n, Begins isInteger toInt field n → n = field.length := by
  unfold intOrString
  by_cases hbegins : ∃ n, Begins isInteger toInt field n
  · obtain ⟨n, hn⟩ := hbegins
    obtain ⟨x, hx, hchars⟩ := fromChars_success isInteger_nil 0 hn
    dsimp only
    rw [hchars, if_pos rfl]
    constructor
    · rintro ⟨hwhole, -⟩ m hm
      exact hm.1.unique (longest_length hwhole)
    · intro hwhole
      obtain rfl := hwhole n hn
      have hinteger := hn.1.2.1
      rw [List.take_length] at hinteger hx
      unfold toInt at hx
      split at hx
      · exact ⟨hinteger, (Option.some.inj hx).symm⟩
      · cases hx
  · rw [not_exists] at hbegins
    rw [if_neg (fromChars_failure 0 hbegins)]
    exact ⟨fun _ n hn => absurd hn (hbegins n), fun _ => rfl⟩

/-- **Typing of fields.** A value is that of the whole field exactly if the number that the
field begins with, if there is one, goes on to its end. -/
theorem faithful_iff (toFloat : List UInt8 → Option F) (zero : F) (field : List UInt8) :
    Faithful field (parsedValue toFloat zero field) ↔ WholeNumber toFloat field := by
  unfold parsedValue WholeNumber
  by_cases hpoint : isFloat field = true
  · rw [if_pos hpoint]
    by_cases hbegins : ∃ n, Begins isFloating toFloat field n
    · obtain ⟨n, hn⟩ := hbegins
      obtain ⟨x, -, hchars⟩ := fromChars_success isFloating_nil zero hn
      dsimp only
      rw [hchars, if_pos rfl]
      constructor
      · rintro ⟨hwhole, -⟩
        have hfloating : isFloating field = true := by rw [isFloating, hwhole, Bool.true_or]
        exact ⟨fun _ m hm => hm.1.unique (longest_length hfloating),
          fun hnone => absurd hn (hnone hpoint n)⟩
      · rintro ⟨hwhole, -⟩
        obtain rfl := hwhole hpoint n hn
        have hfloating := hn.1.2.1
        rw [List.take_length] at hfloating
        exact ⟨isDecimal_of_isFloating hfloating hpoint, hpoint⟩
    · rw [not_exists] at hbegins
      rw [if_neg (fromChars_failure zero hbegins), intOrString_faithful_iff]
      exact ⟨fun hwhole => ⟨fun _ n hn => absurd hn (hbegins n), fun _ => hwhole⟩,
        fun hwhole => hwhole.2 fun _ => hbegins⟩
  · rw [if_neg hpoint, intOrString_faithful_iff]
    exact ⟨fun hwhole => ⟨fun h => absurd h hpoint, fun _ => hwhole⟩,
      fun hwhole => hwhole.2 fun h => absurd h hpoint⟩

/-- `12abc`, `2024-01-01` and `1.2.3`, if `1.2` is a `float`. -/
theorem faithful_truncated :
    ¬ Faithful [49, 50, 97, 98, 99] (parsedValue some [] [49, 50, 97, 98, 99]) ∧
    ¬ Faithful [50, 48, 50, 52, 45, 48, 49, 45, 48, 49]
      (parsedValue some [] [50, 48, 50, 52, 45, 48, 49, 45, 48, 49]) ∧
    ¬ Faithful [49, 46, 50, 46, 51] (parsedValue some [] [49, 46, 50, 46, 51]) := by
  refine ⟨fun h => ?_, fun h => ?_, fun h => ?_⟩
  · exact absurd h.1 (by decide)
  · exact absurd h.1 (by decide)
  · exact absurd h.1 (by decide)

end MyLibraries.FileOps
