import Mathlib.Data.List.TakeWhile
import MyLibraries.FileOps.Reading

/-!
# The columns of a CSV line

`splitString` takes one byte off the last column, whatever it is. Of a line that ends in LF
this is the line ending. Of a CRLF line the CR is left, and of a last line without an end a
byte of the data is lost, unless the last column is empty.
-/

namespace MyLibraries.FileOps

/-- The bytes of a line without the line ending, LF or CRLF. -/
def withoutEnding (line : List UInt8) : List UInt8 :=
  if [cr, lf] <:+ line then line.dropLast.dropLast
  else if [lf] <:+ line then line.dropLast
  else line

/-- `ParseNextLine` gives the columns of the next line, and joined with commas they are the
line without its ending. -/
def Lossless (f : TextFile) : Prop :=
  [44].intercalate (parseNextLine id f).1 = withoutEnding (readLine f).1

variable {str line xs ys : List UInt8} {d x y : UInt8} {f : TextFile}

theorem suffix_append (hys : ys ≠ []) : [x] <:+ xs ++ ys ↔ [x] <:+ ys := by
  refine ⟨fun h => ?_, fun h => h.trans (List.suffix_append xs ys)⟩
  have hlen := List.length_pos_iff.mpr hys
  exact List.suffix_of_suffix_length_le h (List.suffix_append xs ys) hlen

theorem suffix_unique (hx : [x] <:+ str) (hy : [y] <:+ str) : x = y := by
  have h := List.suffix_of_suffix_length_le hx hy (Nat.le_refl 1)
  exact (List.cons.inj (h.eq_of_length rfl)).1

theorem suffix_of_crlf (h : [cr, lf] <:+ line) : [lf] <:+ line :=
  (List.suffix_cons cr [lf]).trans h

/-- Joined again, the columns lack the last byte of the text, unless it is a delimiter. -/
theorem intercalate_splitString (str : List UInt8) (d : UInt8) :
    [d].intercalate (splitString str d) = if [d] <:+ str then str else str.dropLast := by
  fun_induction splitString str d with
  | case1 str h =>
    have hnot : ¬[d] <:+ str := by
      intro hsuffix
      have hmem := hsuffix.subset (List.mem_singleton_self d)
      have hall := List.dropWhile_eq_nil_iff.mp h d hmem
      simp at hall
    rw [List.intercalate_singleton, if_neg hnot]
  | case2 str c rest h ih =>
    have hc : c = d := by
      have hhead := List.head_dropWhile_not (p := (· != d)) (l := str)
        (by rw [h]; exact List.cons_ne_nil _ _)
      simpa [h] using hhead
    subst hc
    have hstr : str = str.takeWhile (· != c) ++ ([c] ++ rest) := by
      have happend := List.takeWhile_append_dropWhile (p := (· != c)) (l := str)
      rw [h] at happend
      exact happend.symm
    have hne : splitString rest c ≠ [] := by
      unfold splitString
      split <;> exact List.cons_ne_nil _ _
    rw [List.intercalate_cons_of_ne_nil hne, ih]
    generalize str.takeWhile (· != c) = front at hstr
    subst hstr
    by_cases hrest : rest = []
    · have hend : [c] <:+ front ++ ([c] ++ []) := List.suffix_append front [c]
      rw [hrest, if_pos hend, if_neg (by simp), List.dropLast_nil, List.append_nil,
        List.append_nil]
    · have hiff : [c] <:+ front ++ ([c] ++ rest) ↔ [c] <:+ rest := by
        rw [suffix_append (by simp), suffix_append hrest]
      by_cases hend : [c] <:+ rest
      · rw [if_pos hend, if_pos (hiff.mpr hend), List.append_assoc]
      · rw [if_neg hend, if_neg (mt hiff.mp hend), List.dropLast_append_of_ne_nil (by simp),
          List.dropLast_append_of_ne_nil hrest, List.append_assoc]

theorem parseNextLine_columns (h : (readLine f).1 ≠ []) :
    (parseNextLine id f).1 = splitString (readLine f).1 44 := by
  unfold parseNextLine nextValue
  dsimp only
  rw [if_neg h, List.map_id]

/-- One byte less is the line without its ending when the ending is one byte. -/
theorem dropLast_eq_withoutEnding (hne : line ≠ []) :
    line.dropLast = withoutEnding line ↔ [lf] <:+ line ∧ ¬[cr, lf] <:+ line := by
  have hpos := List.length_pos_iff.mpr hne
  unfold withoutEnding
  by_cases hcrlf : [cr, lf] <:+ line
  · have hlong := hcrlf.length_le
    rw [if_pos hcrlf]
    refine iff_of_false (fun heq => ?_) fun h => h.2 hcrlf
    have hlen := congrArg List.length heq
    simp only [List.length_dropLast, List.length_cons, List.length_nil] at hlen hlong
    omega
  · rw [if_neg hcrlf]
    by_cases hlf : [lf] <:+ line
    · rw [if_pos hlf]
      exact iff_of_true rfl ⟨hlf, hcrlf⟩
    · rw [if_neg hlf]
      refine iff_of_false (fun heq => ?_) fun h => hlf h.1
      have hlen := congrArg List.length heq
      rw [List.length_dropLast] at hlen
      omega

/-- Which lines are the columns joined. -/
theorem intercalate_eq_withoutEnding (hne : line ≠ []) :
    [44].intercalate (splitString line 44) = withoutEnding line ↔
      ([lf] <:+ line ∧ ¬[cr, lf] <:+ line) ∨ [44] <:+ line := by
  rw [intercalate_splitString]
  by_cases hcomma : [44] <:+ line
  · have hlf : ¬[lf] <:+ line := by
      intro hlf
      exact absurd (suffix_unique hcomma hlf) (by decide)
    have hcrlf := mt suffix_of_crlf hlf
    rw [if_pos hcomma, withoutEnding, if_neg hcrlf, if_neg hlf]
    exact iff_of_true rfl (Or.inr hcomma)
  · rw [if_neg hcomma, dropLast_eq_withoutEnding hne]
    exact ⟨Or.inl, fun h => h.resolve_right hcomma⟩

/-- **What splitting a line loses.** The columns of a line are the line without its ending
exactly if it ends in LF but not in CRLF, or has no ending and an empty last column. -/
theorem lossless_iff (f : TextFile) (h : (readLine f).1 ≠ []) :
    Lossless f ↔ ([lf] <:+ (readLine f).1 ∧ ¬[cr, lf] <:+ (readLine f).1) ∨
      [44] <:+ (readLine f).1 := by
  unfold Lossless
  rw [parseNextLine_columns h]
  exact intercalate_eq_withoutEnding h

/-- The first line of `a,b` LF `c`. -/
theorem lossless_first_line : ∃ f, textFile [97, 44, 98, 10, 99] = .ok f ∧ Lossless f := by
  have hdetect : detect [97, 44, 98, 10, 99] = .ok .lf := rfl
  obtain ⟨f, hf, hlf⟩ := textFile_ok (by decide) hdetect
  obtain ⟨hopened, hpos⟩ := textFile_opened hf
  have hline : (readLine f).1 = [97, 44, 98, 10] := by
    rw [(readLine_spec f).1, hopened.rest_eq, hpos, hlf]
    rfl
  refine ⟨f, hf, (lossless_iff f ?_).mpr (Or.inl ?_)⟩
  · rw [hline]
    exact List.cons_ne_nil _ _
  · rw [hline]
    decide

/-- `a` CRLF `b`: the first line keeps its CR. -/
theorem carriage_return_kept : ∃ f, textFile [97, 13, 10, 98] = .ok f ∧
    (readLine f).1 = [97, 13, 10] ∧ ¬Lossless f := by
  have hdetect : detect [97, 13, 10, 98] = .ok .crlf := rfl
  obtain ⟨f, hf, hcrlf⟩ := textFile_ok (by decide) hdetect
  obtain ⟨hopened, hpos⟩ := textFile_opened hf
  have hline : (readLine f).1 = [97, 13, 10] := by
    rw [(readLine_spec f).1, hopened.rest_eq, hpos, hcrlf]
    rfl
  refine ⟨f, hf, hline, ?_⟩
  have hne : (readLine f).1 ≠ [] := by
    rw [hline]
    exact List.cons_ne_nil _ _
  unfold Lossless
  rw [parseNextLine_columns hne, intercalate_eq_withoutEnding hne, hline]
  decide

end MyLibraries.FileOps
