import MyLibraries.Core.Log
import MyLibraries.Hd44780.Cpp

/-!
# `Print` of the C++ driver

`Print` formats into a buffer of 34 bytes and sends as many characters as `vsnprintf` says
the text has, not as many as are in the buffer: behind 33 of them it sends the terminator,
and reads what nothing was written to.
-/

namespace MyLibraries.Hd44780.Cpp

/-- `sizeof(buffer)`. -/
def bufferSize : Nat := 16 * 2 + 1 + 1

/-- What `vsnprintf` leaves: the bytes it wrote, from the start of the buffer on, and its
result. -/
structure Formatted where
  written : List UInt8
  len : Int

/-- `vsnprintf` of a text, or of none when the formatting fails: what fits into the buffer
with its terminator, and the length of the whole text. -/
inductive Vsnprintf (size : Nat) : Option (List UInt8) → Formatted → Prop
  | formatted (text : List UInt8) :
    Vsnprintf size (some text) { written := text.take (size - 1) ++ [0], len := text.length }
  | error (written : List UInt8) (len : Int) (h : len < 0) : Vsnprintf size none { written, len }

/-- `PutChar`; the conversion of a `char`, signed or not, is a parameter. -/
def putChar (toU16 : UInt8 → BitVec 16) (lcd : Base) (data : UInt8) : List Call :=
  if data = 10 then intfsWrite lcd (0x80#16 ||| 0x40#16) true
  else intfsWrite lcd (toU16 data) false

/-- A run of `Print`: the characters passed to `PutChar`, the calls of the interface, and the
result. -/
structure Printed where
  sent : List UInt8
  calls : List Call
  len : Int

/-- `Print` behind `vsnprintf`; it faults where it reads a byte that was not written. -/
def print (toU16 : UInt8 → BitVec 16) (lcd : Base) (f : Formatted) : Option Printed := do
  let sent ← (List.range f.len.toNat).mapM fun i => f.written[i]?
  some { sent, calls := sent.flatMap (putChar toU16 lcd), len := f.len }

/-- The characters that are to be sent. -/
def expected (text : Option (List UInt8)) : List UInt8 := (text.getD []).take (bufferSize - 1)

variable {toU16 : UInt8 → BitVec 16} {lcd : Base} {f : Formatted} {text : List UInt8}

/-- What is sent, and when it is read at all. -/
theorem print_sent (toU16 : UInt8 → BitVec 16) (lcd : Base) (f : Formatted) :
    (print toU16 lcd f).map Printed.sent =
      if f.len.toNat ≤ f.written.length then some (f.written.take f.len.toNat) else none := by
  unfold print
  rw [Log.mapM_getElem?_range]
  split <;> rfl

theorem print_sent_eq_iff {cs : List UInt8} : (print toU16 lcd f).map Printed.sent = some cs ↔
    f.len.toNat ≤ f.written.length ∧ f.written.take f.len.toNat = cs := by
  rw [print_sent]
  split
  · rename_i h
    exact ⟨fun hc => ⟨h, Option.some.inj hc⟩, fun hc => congrArg some hc.2⟩
  · rename_i h
    exact iff_of_false (Option.some_ne_none cs).symm fun hc => h hc.1

/-- **`Print` sends what was formatted**, and reads only what `vsnprintf` wrote, exactly when
the text fits into the buffer, or there is none. -/
theorem print_sends_iff (toU16 : UInt8 → BitVec 16) (lcd : Base)
    (text : Option (List UInt8)) (hf : Vsnprintf bufferSize text f) :
    (∃ r, print toU16 lcd f = some r ∧ r.sent = expected text) ↔
      ∀ t, text = some t → t.length ≤ 33 := by
  rw [← Option.map_eq_some_iff, print_sent_eq_iff]
  cases hf with
  | error written len h =>
    have hzero : len.toNat = 0 := Int.toNat_of_nonpos (Int.le_of_lt h)
    rw [hzero]
    exact iff_of_true ⟨Nat.zero_le _, rfl⟩ fun t ht => by cases ht
  | formatted text =>
    have hwritten : (text.take (bufferSize - 1) ++ [0]).length = min 33 text.length + 1 := by
      rw [List.length_append, List.length_take, List.length_singleton]
      rfl
    rw [hwritten, Int.toNat_natCast]
    constructor
    · rintro ⟨-, hsent⟩ t ht
      cases ht
      have hlen := congrArg List.length hsent
      rw [List.length_take, hwritten] at hlen
      have hexpected : (expected (some text)).length = min 33 text.length := List.length_take
      omega
    · intro h
      have hle := h text rfl
      refine ⟨by omega, ?_⟩
      have hall : text.take 33 = text := List.take_of_length_le hle
      show (text.take 33 ++ [0]).take text.length = text.take 33
      rw [hall, List.take_left]

/-- A text of two characters. -/
theorem print_sends_two : ∃ r, print (fun c => c.toBitVec.setWidth 16) board
    { written := [65, 10, 0], len := 2 } = some r ∧ r.sent = [65, 10] :=
  (print_sends_iff _ board (some [65, 10]) (.formatted [65, 10])).mpr fun t ht => by
    cases ht
    decide

/-- Of 34 characters it sends the first 33 and the terminator; of 35 it reads past the
buffer. -/
theorem print_reads_past :
    (Vsnprintf bufferSize (some (List.replicate 34 65))
        { written := List.replicate 33 65 ++ [0], len := 34 } ∧
      (print (fun c => c.toBitVec.setWidth 16) board
        { written := List.replicate 33 65 ++ [0], len := 34 }).map Printed.sent =
          some (List.replicate 33 65 ++ [0])) ∧
      Vsnprintf bufferSize (some (List.replicate 35 65))
        { written := List.replicate 33 65 ++ [0], len := 35 } ∧
      (print (fun c => c.toBitVec.setWidth 16) board
        { written := List.replicate 33 65 ++ [0], len := 35 }).map Printed.sent = none := by
  rw [print_sent, print_sent]
  exact ⟨⟨.formatted (List.replicate 34 65), rfl⟩, .formatted (List.replicate 35 65), rfl⟩

end MyLibraries.Hd44780.Cpp
