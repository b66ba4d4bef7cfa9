import MyLibraries.FileOps.Columns
import MyLibraries.FileOps.Fields

/-!
# Reading a table back

A table that is written with a comma between the cells and an LF behind every row comes back
from `Parse` cell by cell. Behind the last row there is one more, which is empty, because
`GetLineCount` counts the LF of the last row as the beginning of a line.
-/

namespace MyLibraries.FileOps

open Pieces Run

/-! ## How a table is written -/

/-- The digits of a number. -/
def decimal (n : Nat) : List UInt8 :=
  if n < 10 then [UInt8.ofNat (48 + n)] else decimal (n / 10) ++ [UInt8.ofNat (48 + n % 10)]
termination_by n
decreasing_by omega

/-- An integer, with its sign when it is negative. -/
def numeral (n : Int) : List UInt8 := if n < 0 then 45 :: decimal n.natAbs else decimal n.natAbs

def writtenRow (row : List (List UInt8)) : List UInt8 := [44].intercalate row ++ [lf]

/-- The bytes of the file. -/
def written (table : List (List (List UInt8))) : List UInt8 := table.flatMap writtenRow

/-- Nothing that separates cells or lines. -/
def Plain (cell : List UInt8) : Prop := ∀ c ∈ cell, c ≠ 44 ∧ c ≠ cr ∧ c ≠ lf

variable {F : Type}

/-- How a value is written: an `int` in its range with its digits, a `float` with a numeral
that has a `'.'`, and a string that begins with neither as it is. -/
inductive Writes (toFloat : List UInt8 → Option F) : List UInt8 → ParsedValue F → Prop
  | int (n : Int) : -2147483648 ≤ n → n ≤ 2147483647 → Writes toFloat (numeral n) (.int n)
  | float (str : List UInt8) (value : F) : Plain str → isFloating str = true →
      isFloat str = true → toFloat str = some value → Writes toFloat str (.float value)
  | string (str : List UInt8) : Plain str →
      (isFloat str = true → ∀ n, ¬ Begins isFloating toFloat str n) →
      (∀ n, ¬ Begins isInteger toInt str n) → Writes toFloat str (.string str)

variable {toFloat : List UInt8 → Option F} {zero : F} {value : ParsedValue F} {n : Nat} {i : Int}
  {str front rest cell : List UInt8} {row : List (List UInt8)} {d : UInt8}
  {table : List (List (List UInt8))} {content : List UInt8} {f : TextFile}

/-! ## Cells -/

theorem isDigit_ofNat (h : n < 10) : isDigit (UInt8.ofNat (48 + n)) = true := by
  revert h
  revert n
  decide

theorem toNat_digit (h : n < 10) : (UInt8.ofNat (48 + n)).toNat - 48 = n := by
  rw [UInt8.toNat_ofNat_of_lt' (by show 48 + n < 256; omega)]
  omega

theorem decimal_ne_nil (n : Nat) : decimal n ≠ [] := by
  unfold decimal
  split
  · exact List.cons_ne_nil _ _
  · exact List.append_ne_nil_of_right_ne_nil _ (List.cons_ne_nil _ _)

theorem decimal_isDigit (n : Nat) : ∀ c ∈ decimal n, isDigit c = true := by
  fun_induction decimal n with
  | case1 n h => exact List.forall_mem_singleton.mpr (isDigit_ofNat h)
  | case2 n h ih =>
    rw [List.forall_mem_append]
    exact ⟨ih, List.forall_mem_singleton.mpr (isDigit_ofNat (Nat.mod_lt _ (by decide)))⟩

theorem foldl_decimal (n : Nat) :
    (decimal n).foldl (fun n c => 10 * n + (c.toNat - 48)) 0 = n := by
  fun_induction decimal n with
  | case1 n h =>
    show 10 * 0 + ((UInt8.ofNat (48 + n)).toNat - 48) = n
    rw [toNat_digit h]
    omega
  | case2 n h ih =>
    rw [List.foldl_append, ih]
    show 10 * (n / 10) + ((UInt8.ofNat (48 + n % 10)).toNat - 48) = n
    rw [toNat_digit (Nat.mod_lt _ (by decide))]
    omega

theorem ne_of_isDigit (c : UInt8) (h : isDigit c = true) :
    c ≠ 45 ∧ c ≠ 46 ∧ c ≠ 44 ∧ c ≠ cr ∧ c ≠ lf := by
  refine ⟨?_, ?_, ?_, ?_, ?_⟩ <;> rintro rfl <;> exact absurd h (by decide)

theorem unsigned_decimal (n : Nat) : unsigned (decimal n) = decimal n := by
  cases h : decimal n with
  | nil => exact absurd h (decimal_ne_nil n)
  | cons c s =>
    have hc := decimal_isDigit n c (h ▸ List.mem_cons_self ..)
    exact if_neg (ne_of_isDigit c hc).1

theorem unsigned_numeral (i : Int) : unsigned (numeral i) = decimal i.natAbs := by
  unfold numeral
  split
  · rw [unsigned, if_pos rfl]
  · exact unsigned_decimal _

theorem isInteger_numeral (i : Int) : isInteger (numeral i) = true := by
  unfold isInteger isDigits
  rw [unsigned_numeral, Bool.and_eq_true, List.all_eq_true]
  exact ⟨decide_eq_true (decimal_ne_nil _), decimal_isDigit _⟩

theorem integerValue_numeral (i : Int) : integerValue (numeral i) = i := by
  unfold integerValue
  dsimp only
  rw [unsigned_numeral, foldl_decimal]
  unfold numeral
  split
  · rw [if_pos List.head?_cons]
    omega
  · rw [if_neg]
    · omega
    · intro h
      have hmem := List.mem_of_mem_head? h
      exact (ne_of_isDigit _ (decimal_isDigit _ _ hmem)).1 rfl

theorem mem_numeral {c : UInt8} (h : c ∈ numeral i) : c = 45 ∨ isDigit c = true := by
  unfold numeral at h
  split at h
  · rcases List.mem_cons.mp h with hc | hc
    · exact .inl hc
    · exact .inr (decimal_isDigit _ c hc)
  · exact .inr (decimal_isDigit _ c h)

theorem plain_numeral (i : Int) : Plain (numeral i) := by
  intro c hc
  rcases mem_numeral hc with rfl | h
  · decide
  · exact (ne_of_isDigit c h).2.2

theorem isFloat_numeral (i : Int) : isFloat (numeral i) = false := by
  rw [isFloat, ← Bool.not_eq_true, List.contains_iff_mem]
  intro h
  rcases mem_numeral h with h | h
  · cases h
  · exact (ne_of_isDigit 46 h).2.1 rfl

theorem begins_whole {T : Type} {pattern : List UInt8 → Bool} {convert : List UInt8 → Option T}
    {x : T} (h : pattern str = true) (hx : convert str = some x) :
    Begins pattern convert str str.length := by
  refine ⟨longest_length h, ?_⟩
  rw [List.take_length, hx]
  rfl

theorem fromChars_whole {T : Type} {pattern : List UInt8 → Bool}
    {convert : List UInt8 → Option T} {x : T} (hnil : pattern [] = false) (value : T)
    (h : pattern str = true) (hx : convert str = some x) :
    fromChars pattern convert str value = (x, str.length, .success) := by
  obtain ⟨y, hy, hchars⟩ := fromChars_success hnil value (begins_whole h hx)
  rw [List.take_length, hx] at hy
  cases hy
  exact hchars

/-- **A cell comes back.** -/
theorem parsedValue_of_writes (h : Writes toFloat cell value) :
    parsedValue toFloat zero cell = value := by
  cases h with
  | int n hlo hhi =>
    have hint : toInt (numeral n) = some n := by
      unfold toInt
      rw [integerValue_numeral, if_pos ⟨hlo, hhi⟩]
    unfold parsedValue intOrString
    dsimp only
    rw [isFloat_numeral, if_neg Bool.false_ne_true,
      fromChars_whole isInteger_nil 0 (isInteger_numeral n) hint, if_pos rfl]
  | float _ x _ hfloating hpoint hx =>
    unfold parsedValue
    dsimp only
    rw [if_pos hpoint, fromChars_whole isFloating_nil zero hfloating hx, if_pos rfl]
  | string _ _ hfloat hint =>
    have hstring : (intOrString cell : ParsedValue F) = .string cell := by
      unfold intOrString
      dsimp only
      rw [if_neg (fromChars_failure 0 hint)]
    unfold parsedValue
    dsimp only
    rw [hstring]
    split
    · rename_i hpoint
      rw [if_neg (fromChars_failure zero (hfloat hpoint))]
    · rfl

theorem plain_of_writes (h : Writes toFloat cell value) : Plain cell := by
  cases h with
  | int n => exact plain_numeral n
  | float _ _ hplain => exact hplain
  | string _ hplain => exact hplain

/-! ## Rows -/

theorem splitString_last (h : d ∉ str) : splitString str d = [str.dropLast] := by
  have hnil : str.dropWhile (· != d) = [] := by
    rw [List.dropWhile_eq_nil_iff]
    intro c hc
    exact bne_iff_ne.mpr fun heq => h (heq ▸ hc)
  unfold splitString
  split
  · rfl
  · rename_i heq
    rw [hnil] at heq
    cases heq

theorem splitString_append (h : d ∉ front) :
    splitString (front ++ d :: rest) d = front :: splitString rest d := by
  have hfront : ∀ c ∈ front, (c != d) = true := fun c hc => bne_iff_ne.mpr fun heq => h (heq ▸ hc)
  have hdrop : (front ++ d :: rest).dropWhile (· != d) = d :: rest := by
    rw [List.dropWhile_append_of_pos hfront, List.dropWhile_cons_of_neg (by simp)]
  have htake : (front ++ d :: rest).takeWhile (· != d) = front := by
    rw [List.takeWhile_append_of_pos hfront, List.takeWhile_cons_of_neg (by simp), List.append_nil]
  conv_lhs => unfold splitString
  split
  · rename_i heq
    rw [hdrop] at heq
    cases heq
  · rename_i heq
    rw [hdrop] at heq
    cases heq
    rw [htake]

/-- The columns of a row are its cells. -/
theorem splitString_writtenRow (hne : row ≠ []) (hrow : ∀ cell ∈ row, 44 ∉ cell) :
    splitString (writtenRow row) 44 = row := by
  induction row with
  | nil => exact absurd rfl hne
  | cons cell row ih =>
    rw [List.forall_mem_cons] at hrow
    unfold writtenRow at ih ⊢
    by_cases hrest : row = []
    · subst hrest
      have hlast : 44 ∉ cell ++ [lf] := by
        rw [List.mem_append, not_or]
        exact ⟨hrow.1, by decide⟩
      rw [List.intercalate_singleton, splitString_last hlast, List.dropLast_concat]
    · rw [List.intercalate_cons_of_ne_nil hrest, List.append_assoc, List.append_assoc,
        List.singleton_append, splitString_append hrow.1, ih hrest hrow.2]

theorem mem_intercalate {c : UInt8} (h : c ∈ [44].intercalate row) :
    c = 44 ∨ ∃ cell ∈ row, c ∈ cell := by
  induction row with
  | nil => cases h
  | cons cell row ih =>
    by_cases hrest : row = []
    · subst hrest
      rw [List.intercalate_singleton] at h
      exact .inr ⟨cell, List.mem_cons_self .., h⟩
    · rw [List.intercalate_cons_of_ne_nil hrest, List.append_assoc, List.mem_append,
        List.singleton_append, List.mem_cons] at h
      rcases h with h | h | h
      · exact .inr ⟨cell, List.mem_cons_self .., h⟩
      · exact .inl h
      · rcases ih h with h | ⟨cell', hmem, h⟩
        · exact .inl h
        · exact .inr ⟨cell', List.mem_cons_of_mem _ hmem, h⟩

/-- Nothing in a row ends the line early. -/
theorem mem_row (hrow : ∀ cell ∈ row, Plain cell) {c : UInt8} (h : c ∈ [44].intercalate row) :
    c ≠ cr ∧ c ≠ lf := by
  rcases mem_intercalate h with rfl | ⟨cell, hmem, h⟩
  · decide
  · exact (hrow cell hmem c h).2

/-! ## The file -/

theorem lineLength_row (h : ∀ c ∈ str, c ≠ lf) :
    lineLength .lf (str ++ lf :: rest) = str.length + 1 := by
  induction str with
  | nil => exact if_pos rfl
  | cons c str ih =>
    rw [List.forall_mem_cons] at h
    rw [List.cons_append, lineLength_next h.1, ih h.2, List.length_cons]

/-- The lines of the file are the rows. -/
theorem pieces_written (h : ∀ row ∈ table, ∀ cell ∈ row, Plain cell) :
    pieces (lineCutter .lf) (written table) = table.map writtenRow := by
  induction table with
  | nil => exact pieces_nil _
  | cons row table ih =>
    rw [List.forall_mem_cons] at h
    have hwritten : written (row :: table) = [44].intercalate row ++ lf :: written table := by
      rw [written, List.flatMap_cons, writtenRow, List.append_assoc, List.singleton_append]
      rfl
    have hnext : (lineCutter .lf).next (written (row :: table)) =
        ([44].intercalate row).length + 1 := by
      rw [hwritten]
      exact lineLength_row fun c hc => (mem_row h.1 hc).2
    have hsplit : written (row :: table) = writtenRow row ++ written table := by
      rw [hwritten, writtenRow, List.append_assoc, List.singleton_append]
    have hlen : (writtenRow row).length = ([44].intercalate row).length + 1 := by
      rw [writtenRow, List.length_append, List.length_singleton]
    rw [pieces_of_ne_nil _ (by rw [hwritten]; simp), hnext, ← hlen, hsplit, List.take_left,
      List.drop_left, ih h.2, List.map_cons]

theorem linesIn_written (h : ∀ row ∈ table, ∀ cell ∈ row, Plain cell) :
    linesIn .lf (written table) = table.length := by
  rw [← length_pieces_eq, pieces_written h, List.length_map]

theorem count_written (h : ∀ row ∈ table, ∀ cell ∈ row, Plain cell) :
    (written table).count cr = 0 ∧ (written table).count lf = table.length := by
  induction table with
  | nil => exact ⟨rfl, rfl⟩
  | cons row table ih =>
    rw [List.forall_mem_cons] at h
    obtain ⟨hcr, hlf⟩ := ih h.2
    have hrow := fun c => mem_row (c := c) h.1
    have hcr' : ([44].intercalate row).count cr = 0 :=
      List.count_eq_zero.mpr fun hc => (hrow cr hc).1 rfl
    have hlf' : ([44].intercalate row).count lf = 0 :=
      List.count_eq_zero.mpr fun hc => (hrow lf hc).2 rfl
    rw [written] at hcr hlf ⊢
    rw [List.flatMap_cons, writtenRow, List.count_append, List.count_append, List.count_append,
      List.count_append, hcr, hlf, hcr', hlf']
    exact ⟨rfl, by rw [List.length_cons]; simp; omega⟩

theorem textFile_written (hne : table ≠ []) (h : ∀ row ∈ table, ∀ cell ∈ row, Plain cell) :
    ∃ f, textFile (written table) = .ok f ∧ f.lineEnding = .lf := by
  obtain ⟨hcr, hlf⟩ := count_written h
  refine textFile_ok (fun hlen => ?_) ?_
  · rw [List.length_eq_zero_iff.mp hlen] at hlf
    exact hne (List.length_eq_zero_iff.mp hlf.symm)
  · unfold detect
    dsimp only
    rw [hcr, if_neg fun h => Nat.lt_irrefl 0 h.1]

/-- `Parse` on the file of a table, wherever the last call has left off. -/
theorem parse_of_opened {β : Type} (value : List UInt8 → β)
    (h : ∀ row ∈ table, ∀ cell ∈ row, Plain cell) (hrows : ∀ row ∈ table, row ≠ [])
    (hlen : table.length < 2 ^ 31) (hf : Opened (written table) f) (hlf : f.lineEnding = .lf) :
    ∃ g, parse value f = some (.ok (table.map (List.map value) ++ [[]]), g) := by
  obtain ⟨g, hreset, hg, hparse⟩ := hf.parse_spec value
  obtain ⟨g', hreset', -, hrest, -, hending⟩ := hf.reset_spec
  cases hreset.symm.trans hreset'
  rw [hlf] at hparse hending
  have hlines := linesIn_written h
  have hrow : ∀ row ∈ table, (splitString (writtenRow row) 44).map value = row.map value := by
    intro row hmem
    rw [splitString_writtenRow (hrows row hmem)
      fun cell hcell hc => (h row hmem cell hcell 44 hc).1 rfl]
  refine ⟨atEnd g, ?_⟩
  rw [hparse, hlines, if_pos hlen, reads_eq, hrest, hending, pieces_written h, hlines,
    List.map_map, hg.lineCount_eq, (count_written h).2, Nat.add_sub_cancel_left]
  have hmap : table.map ((fun line => (splitString line 44).map value) ∘ writtenRow) =
      table.map (List.map value) := List.map_congr_left hrow
  rw [hmap]
  rfl

theorem forall_of_forall₂ {α β : Type} {R : α → β → Prop} {P : α → Prop} {as : List α}
    {bs : List β} (hP : ∀ a b, R a b → P a) (h : List.Forall₂ R as bs) : ∀ a ∈ as, P a := by
  induction h with
  | nil => exact fun a ha => absurd ha List.not_mem_nil
  | cons hab _ ih => exact List.forall_mem_cons.mpr ⟨hP _ _ hab, ih⟩

theorem written_plain {values : List (List (ParsedValue F))}
    (h : List.Forall₂ (List.Forall₂ (Writes toFloat)) table values) :
    ∀ row ∈ table, ∀ cell ∈ row, Plain cell :=
  forall_of_forall₂ (fun _ _ => forall_of_forall₂ fun _ _ => plain_of_writes) h

theorem written_values {values : List (List (ParsedValue F))}
    (h : List.Forall₂ (List.Forall₂ (Writes toFloat)) table values) :
    table.map (List.map (parsedValue toFloat zero)) = values := by
  induction h with
  | nil => rfl
  | cons hrow _ ih =>
    rw [List.map_cons, ih]
    congr 1
    induction hrow with
    | nil => rfl
    | cons hcell _ ih => rw [List.map_cons, parsedValue_of_writes hcell, ih]

/-- **A table comes back.** Whatever was called before, `Parse` on the file that a table was
written to gives the values of its cells, and an empty row behind them. -/
theorem parse_written (toFloat : List UInt8 → Option F) (zero : F)
    (table : List (List (List UInt8))) (values : List (List (ParsedValue F)))
    (hwrites : List.Forall₂ (List.Forall₂ (Writes toFloat)) table values) (hne : table ≠ [])
    (hrows : ∀ row ∈ table, row ≠ []) (hlen : table.length < 2 ^ 31) (calls : List Call) :
    ∃ f rs f' g, textFile (written table) = .ok f ∧
      run (call (parsedValue toFloat zero)) f calls = some (rs, f') ∧
      parse (parsedValue toFloat zero) f' = some (.ok (values ++ [[]]), g) := by
  have hplain := written_plain hwrites
  obtain ⟨f, hf, hlf⟩ := textFile_written hne hplain
  have hinv : Opened (written table) f ∧ f.lineEnding = .lf := ⟨(textFile_opened hf).1, hlf⟩
  have hstep : ∀ g c, Opened (written table) g ∧ g.lineEnding = .lf →
      ∃ a g', call (parsedValue toFloat zero) g c = some (a, g') ∧
        Opened (written table) g' ∧ g'.lineEnding = .lf := by
    rintro g c ⟨hg, hending⟩
    obtain ⟨a, g', hcall, hg'⟩ := hg.call_spec (parsedValue toFloat zero)
      (by rw [hending, linesIn_written hplain]; exact hlen) c
    have hsame := hg'.detected.symm.trans hg.detected
    exact ⟨a, g', hcall, hg', (Except.ok.inj hsame).trans hending⟩
  obtain ⟨rs, f', hrun, hf', hlf'⟩ := run_exists hstep hinv
  obtain ⟨g, hparse⟩ := parse_of_opened (parsedValue toFloat zero) hplain hrows hlen hf' hlf'
  rw [written_values hwrites] at hparse
  exact ⟨f, rs, f', g, hf, hrun, hparse⟩

/-- `a` is neither an `int` nor a `float`. -/
theorem not_begins_letter (n : Nat) : ¬ Begins isInteger toInt [97] n := by
  rintro ⟨⟨hle, hpattern, -⟩, -⟩
  have hle : n ≤ 1 := hle
  obtain rfl | rfl : n = 0 ∨ n = 1 := by omega
  · exact absurd hpattern (by decide)
  · exact absurd hpattern (by decide)

/-- `12,a` and `1.5,-7`, where a `float` is its numeral. -/
theorem parse_written_two : ∃ f rs f' g,
    textFile (written [[numeral 12, [97]], [[49, 46, 53], numeral (-7)]]) = .ok f ∧
      run (call (parsedValue some [])) f [.readLine, .parse] = some (rs, f') ∧
      parse (parsedValue some []) f' =
        some (.ok ([[.int 12, .string [97]], [.float [49, 46, 53], .int (-7)]] ++ [[]]), g) := by
  have hletter : Writes some [97] (.string [97]) := by
    refine .string _ (by unfold Plain; decide +kernel) (fun h => ?_) not_begins_letter
    cases h
  have hfloat : Writes some [49, 46, 53] (.float [49, 46, 53]) :=
    .float _ _ (by unfold Plain; decide +kernel) (by decide) (by decide) rfl
  refine parse_written some [] _ _ ?_ (List.cons_ne_nil _ _) ?_ (by decide) _
  · refine .cons (.cons (.int 12 (by decide) (by decide)) (.cons hletter .nil)) ?_
    exact .cons (.cons hfloat (.cons (.int (-7) (by decide) (by decide)) .nil)) .nil
  · intro row hrow
    rcases List.mem_cons.mp hrow with rfl | hrow
    · exact List.cons_ne_nil _ _
    · rw [List.mem_singleton.mp hrow]
      exact List.cons_ne_nil _ _

end MyLibraries.FileOps
