import MyLibraries.Core.Pieces
import MyLibraries.FileOps.Model

/-!
# The lines of a text file

What is left to read is a text, and a line is its next piece: `lineLength` says how long
it is. `linesIn` counts the lines of a text by recursion on it. In a CRLF file a CR ends
the line together with the byte behind it, whatever that is; so a line holds at least one
CR, unless it is the last one.
-/

namespace MyLibraries.FileOps

open Pieces

/-- How long the first line of a text is. -/
def lineLength : LineEnding → List UInt8 → Nat
  | _, [] => 0
  | .lf, b :: bs => if b = lf then 1 else lineLength .lf bs + 1
  | .crlf, [_] => 1
  | .crlf, b :: c :: bs => if b = cr then 2 else lineLength .crlf (c :: bs) + 1

/-- How many lines a text has. -/
def linesIn : LineEnding → List UInt8 → Nat
  | _, [] => 0
  | .lf, b :: bs => if b = lf then linesIn .lf bs + 1 else max 1 (linesIn .lf bs)
  | .crlf, [_] => 1
  | .crlf, b :: c :: bs =>
    if b = cr then linesIn .crlf bs + 1 else max 1 (linesIn .crlf (c :: bs))

/-- What ends a line of a file. -/
def lineByte : LineEnding → UInt8
  | .crlf => cr
  | .lf => lf

variable {e : LineEnding} {text : List UInt8} {f g : TextFile}

theorem lineLength_pos (e : LineEnding) (text : List UInt8) (h : text ≠ []) :
    0 < lineLength e text := by
  fun_cases lineLength e text <;> simp_all

/-- The lines of a text. -/
def lineCutter (e : LineEnding) : Cutter UInt8 where
  next := lineLength e
  next_pos := lineLength_pos e

theorem lineLength_le (e : LineEnding) (text : List UInt8) :
    lineLength e text ≤ text.length := by
  fun_induction lineLength e text with
  | case1 => simp
  | case2 => simp
  | case3 b bs h ih => simpa using ih
  | case4 => simp
  | case5 => simp
  | case6 b c bs h ih => simpa using ih

theorem lineLength_next {b : UInt8} (hb : b ≠ lineByte e) (bs : List UInt8) :
    lineLength e (b :: bs) = lineLength e bs + 1 := by
  cases e with
  | lf => exact if_neg hb
  | crlf =>
    cases bs with
    | nil => rfl
    | cons c bs => exact if_neg hb

/-- A line that does not end the text holds the byte that ends it. -/
theorem lineCutter_endsWith (e : LineEnding) : (lineCutter e).EndsWith (· == lineByte e) := by
  intro text hne hlast
  show 0 < (text.take (lineLength e text)).countP (· == lineByte e)
  replace hlast : lineLength e text < text.length := hlast
  rw [List.countP_pos_iff]
  fun_induction lineLength e text with
  | case1 => simp at hne
  | case2 bs => exact ⟨lf, by simp, by simp [lineByte]⟩
  | case3 b bs h ih =>
    have hbs : bs ≠ [] := by
      rintro rfl
      simp [lineLength] at hlast
    obtain ⟨x, hx, hp⟩ := ih hbs (by simpa using hlast)
    exact ⟨x, by simp [hx], hp⟩
  | case4 => simp at hlast
  | case5 c bs => exact ⟨cr, by simp, by simp [lineByte]⟩
  | case6 b c bs h ih =>
    obtain ⟨x, hx, hp⟩ := ih (by simp) (by simpa using hlast)
    exact ⟨x, by rw [List.take_succ_cons]; exact List.mem_cons_of_mem _ hx, hp⟩

theorem linesIn_pos (h : text ≠ []) : 0 < linesIn e text := by
  fun_cases linesIn e text with
  | case1 => exact absurd rfl h
  | case2 => omega
  | case3 => omega
  | case4 => omega
  | case5 => omega
  | case6 => omega

/-- A line less is left behind the first line. -/
theorem linesIn_drop (h : text ≠ []) :
    linesIn e text = linesIn e (text.drop (lineLength e text)) + 1 := by
  fun_induction lineLength e text with
  | case1 => simp at h
  | case2 bs => simp [linesIn]
  | case3 b bs hb ih =>
    rw [linesIn, if_neg hb, List.drop_succ_cons]
    cases bs with
    | nil => simp [linesIn]
    | cons c bs =>
      rw [← ih (by simp)]
      have hpos := linesIn_pos (e := .lf) (List.cons_ne_nil c bs)
      omega
  | case4 b => simp [linesIn]
  | case5 c bs => simp [linesIn]
  | case6 b c bs hb ih =>
    rw [linesIn, if_neg hb, List.drop_succ_cons, ← ih (by simp)]
    have hpos := linesIn_pos (e := .crlf) (List.cons_ne_nil c bs)
    omega

theorem length_pieces_eq (e : LineEnding) (text : List UInt8) :
    (pieces (lineCutter e) text).length = linesIn e text := by
  induction text using cut_induction (lineCutter e) with
  | nil => simp [linesIn]
  | cut text h ih => rw [pieces_of_ne_nil _ h, List.length_cons, ih, linesIn_drop h]; rfl

/-- A byte in front of a text adds one line at most, and takes none away. -/
theorem linesIn_cons (e : LineEnding) (b : UInt8) (bs : List UInt8) :
    linesIn e bs ≤ linesIn e (b :: bs) ∧ linesIn e (b :: bs) ≤ linesIn e bs + 1 := by
  cases e with
  | lf =>
    rw [linesIn]
    split <;> omega
  | crlf =>
    induction bs generalizing b with
    | nil => simp [linesIn]
    | cons c bs ih =>
      have hc := ih c
      rw [linesIn]
      split <;> omega

theorem linesIn_drop_le (e : LineEnding) (text : List UInt8) (n : Nat) :
    linesIn e (text.drop n) ≤ linesIn e text := by
  induction n generalizing text with
  | zero => simp
  | succ n ih =>
    cases text with
    | nil => simp
    | cons b bs =>
      rw [List.drop_succ_cons]
      exact Nat.le_trans (ih bs) (linesIn_cons e b bs).1

end MyLibraries.FileOps
