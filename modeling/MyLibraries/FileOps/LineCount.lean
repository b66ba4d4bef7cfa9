import MyLibraries.FileOps.Reading

/-!
# The number of lines

`GetLineCount` is the number of LFs and one more, for a last line without an end. A file
whose last line has an end has one line less, and `ReadLines` and `Parse` then give an empty
element for it. The same holds of a CR in a CRLF file that ends no line of its own.
-/

namespace MyLibraries.FileOps

open Pieces

/-- `GetLineCount` is the number of pieces that `ReadLine` gives from the beginning, and
`ReadLines` and `Parse` give one element for each of them. -/
def CountsLines {β : Type} (parsedValue : List UInt8 → β) (f : TextFile) : Prop :=
  ∃ g, reset f = .ok g ∧ g.lineCount = (reads g).length ∧
    readLines g = some (reads g, atEnd g) ∧
    parse parsedValue f =
      some (.ok ((reads g).map fun line => (splitString line 44).map parsedValue), atEnd g)

/-- The bytes behind the end of a line: in an LF file there are some, and in a CRLF file
there are two at least, the first of which is no CR. -/
def GoesOn : LineEnding → List UInt8 → Prop
  | .lf, rest => rest ≠ []
  | .crlf, rest => rest.head? ≠ some cr ∧ 2 ≤ rest.length

/-- The last line has no end, and each end ends a line of its own. -/
def OpenEnd (e : LineEnding) (text : List UInt8) : Prop :=
  ∀ pre rest, text = pre ++ lineByte e :: rest → GoesOn e rest

variable {β : Type} {e : LineEnding} {text bs : List UInt8} {b : UInt8} {f : TextFile}

theorem openEnd_nil (e : LineEnding) : OpenEnd e [] := by
  intro pre rest h
  simp at h

theorem openEnd_cons : OpenEnd e (b :: bs) ↔ (b = lineByte e → GoesOn e bs) ∧ OpenEnd e bs := by
  constructor
  · intro h
    refine ⟨fun hb => h [] bs (by rw [hb, List.nil_append]), fun pre rest hbs => ?_⟩
    exact h (b :: pre) rest (by rw [hbs, List.cons_append])
  · rintro ⟨hfirst, hrest⟩ pre rest h
    cases pre with
    | nil =>
      obtain ⟨hb, rfl⟩ := List.cons.inj h
      exact hfirst hb
    | cons c pre => exact hrest pre rest (List.cons.inj h).2

theorem linesIn_le (e : LineEnding) (text : List UInt8) :
    linesIn e text ≤ text.count (lineByte e) + 1 := by
  have hle := length_pieces_le (lineCutter e) (lineCutter_endsWith e) text
  rw [length_pieces_eq] at hle
  exact hle

theorem openEnd_cons_of_ne (hb : b ≠ lineByte e) : OpenEnd e (b :: bs) ↔ OpenEnd e bs := by
  rw [openEnd_cons]
  exact ⟨fun h => h.2, fun h => ⟨fun heq => absurd heq hb, h⟩⟩

/-- **A text has one line more than line ends** exactly if its last line has no end and
each end ends a line of its own. -/
theorem linesIn_eq_iff (h : text ≠ []) :
    linesIn e text = text.count (lineByte e) + 1 ↔ OpenEnd e text := by
  fun_induction linesIn e text with
  | case1 => exact absurd rfl h
  | case2 bs ih =>
    rw [openEnd_cons, lineByte, List.count_cons_self]
    by_cases hbs : bs = []
    · subst hbs
      exact iff_of_false (by decide) fun h => h.1 rfl rfl
    · rw [← ih hbs, Nat.add_right_cancel_iff]
      exact ⟨fun hcount => ⟨fun _ => hbs, hcount⟩, fun h => h.2⟩
  | case3 b bs hb ih =>
    have hb : b ≠ lineByte .lf := hb
    rw [openEnd_cons_of_ne hb, List.count_cons_of_ne hb]
    by_cases hbs : bs = []
    · subst hbs
      exact iff_of_true rfl (openEnd_nil _)
    · have hpos := linesIn_pos (e := .lf) hbs
      rw [← ih hbs, Nat.max_eq_right hpos]
  | case4 b =>
    rw [openEnd_cons]
    by_cases hb : b = cr
    · subst hb
      exact iff_of_false (by decide) fun h => absurd (h.1 rfl).2 (by decide)
    · have hb : b ≠ lineByte .crlf := hb
      rw [List.count_cons_of_ne hb]
      exact iff_of_true rfl ⟨fun heq => absurd heq hb, openEnd_nil _⟩
  | case5 c bs ih =>
    rw [openEnd_cons, lineByte, List.count_cons_self]
    have hle := linesIn_le .crlf bs
    rw [lineByte] at hle
    by_cases hc : c = cr
    · subst hc
      rw [List.count_cons_self]
      exact iff_of_false (by omega) fun h => (h.1 rfl).1 rfl
    · rw [List.count_cons_of_ne hc, openEnd_cons_of_ne hc]
      by_cases hbs : bs = []
      · subst hbs
        refine iff_of_false (fun hcount => ?_) fun h => ?_
        · cases hcount
        · exact Nat.not_succ_le_self 1 (h.1 rfl).2
      · have hlen := List.length_pos_iff.mpr hbs
        rw [← ih hbs, Nat.add_right_cancel_iff]
        refine ⟨fun hcount => ⟨fun _ => ⟨?_, ?_⟩, hcount⟩, fun h => h.2⟩
        · simpa using hc
        · rw [List.length_cons]
          omega
  | case6 b c bs hb ih =>
    have hb : b ≠ lineByte .crlf := hb
    have hpos := linesIn_pos (e := .crlf) (List.cons_ne_nil c bs)
    rw [openEnd_cons_of_ne hb, List.count_cons_of_ne hb, Nat.max_eq_right hpos,
      ih (List.cons_ne_nil c bs)]

/-- **When `GetLineCount` is the number of lines**: exactly for a file that does not end with
the end of a line, whose every end ends a line of its own, and whose lines an `int` counts. -/
theorem countsLines_iff (parsedValue : List UInt8 → β) (content : List UInt8) (f : TextFile)
    (h : textFile content = .ok f) :
    CountsLines parsedValue f ↔
      OpenEnd f.lineEnding content ∧ linesIn f.lineEnding content < 2 ^ 31 := by
  have hopened := (textFile_opened h).1
  obtain ⟨g, hreset, hg, hparse⟩ := hopened.parse_spec parsedValue
  obtain ⟨g', hreset', -, hrest, -, hending⟩ := hopened.reset_spec
  obtain rfl : g' = g := Except.ok.inj (hreset'.symm.trans hreset)
  have hcount : g'.lineCount = content.count (lineByte f.lineEnding) + 1 := by
    rw [hg.lineCount_eq, count_lineByte hopened.detected]
  have hlength : (reads g').length = linesIn f.lineEnding content := by
    rw [reads_length, hrest, hending]
  rw [← linesIn_eq_iff hopened.nonempty]
  constructor
  · rintro ⟨g₁, hg₁, hlines, -, hrows⟩
    obtain rfl : g' = g₁ := Except.ok.inj (hreset.symm.trans hg₁)
    refine ⟨by omega, ?_⟩
    by_contra hmany
    rw [hrows, if_neg hmany] at hparse
    cases hparse
  · rintro ⟨hlines, hfew⟩
    have hnone : g'.lineCount - linesIn f.lineEnding content = 0 := by omega
    refine ⟨g', hreset, by omega, ?_, ?_⟩
    · rw [hg.readLines_spec (hending ▸ hfew), hrest, hending, hnone, List.replicate_zero,
        List.append_nil]
    · rw [hparse, if_pos hfew, hending, hnone, List.replicate_zero, List.append_nil]

/-- `a` LF `b` has two lines. -/
theorem countsLines_two : ∃ f, textFile [97, 10, 98] = .ok f ∧ CountsLines id f := by
  have hdetect : detect [97, 10, 98] = .ok .lf := rfl
  obtain ⟨f, hf, hlf⟩ := textFile_ok (by decide) hdetect
  refine ⟨f, hf, (countsLines_iff id _ f hf).mpr ?_⟩
  rw [hlf, ← linesIn_eq_iff (List.cons_ne_nil _ _)]
  decide

/-- `a` LF has one line, and `GetLineCount` is 2. -/
theorem final_line_counted_twice : ∃ f, textFile [97, 10] = .ok f ∧ f.lineCount = 2 ∧
    ¬CountsLines id f := by
  have hdetect : detect [97, 10] = .ok .lf := rfl
  obtain ⟨f, hf, hlf⟩ := textFile_ok (by decide) hdetect
  have hopened := (textFile_opened hf).1
  obtain ⟨g, hreset, hg, hrest, hcount, hending⟩ := hopened.reset_spec
  refine ⟨f, hf, hopened.lineCount_eq, ?_⟩
  rintro ⟨g', hg', hlines, -⟩
  obtain rfl : g = g' := Except.ok.inj (hreset.symm.trans hg')
  rw [hcount, hopened.lineCount_eq, reads_length, hrest, hending, hlf] at hlines
  revert hlines
  decide

end MyLibraries.FileOps
