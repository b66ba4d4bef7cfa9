import MyLibraries.FileOps.Lines

/-!
# Reading a whole file

Calling `readLine` until it answers an empty piece gives the lines of what is left
(`reads_eq`). They are never more than `GetLineCount` says, so `readLines` and `parse`
have room for all of them; but they count them in an `int`, so what they do is defined
exactly for files with less than `2 ^ 31` lines.
-/

namespace MyLibraries.FileOps

open Pieces Run

/-- What `ReadLine` answers when it is called until the end. -/
def reads (f : TextFile) : List (List UInt8) :=
  if _h : (readLine f).1 = [] then [] else (readLine f).1 :: reads (readLine f).2
termination_by f.endPos - f.readPos
decreasing_by exact readLine_advances _h

/-- The bytes in front of the end. -/
def rest (f : TextFile) : List UInt8 := (f.content.take f.endPos).drop f.readPos

/-- The file with all of it read. -/
def atEnd (f : TextFile) : TextFile :=
  { f with readPos := f.endPos, readPos_le := Nat.le_refl _ }

/-- What the constructor and every call leave. -/
structure Opened (content : List UInt8) (f : TextFile) : Prop where
  content_eq : f.content = content
  nonempty : content ≠ []
  mapped : f.mapped = true
  endPos_eq : f.endPos = content.length
  lineCount_eq : f.lineCount = content.count lf + 1
  detected : detect content = .ok f.lineEnding

/-- The member functions that read. -/
inductive Call
  | reset
  | readLine
  | readLines
  | parse
  deriving DecidableEq, Repr

/-- What a call answers, or the exception that it throws. -/
inductive Answer (β : Type)
  | done
  | threw (e : Error)
  | line (l : List UInt8)
  | lines (ls : List (List UInt8))
  | rows (rs : List (List β))

variable {β : Type} {content : List UInt8} {f f' g : TextFile}

/-- A call. -/
def call (parsedValue : List UInt8 → β) (f : TextFile) : Call → Option (Answer β × TextFile)
  | .reset =>
    match reset f with
    | .error e => some (.threw e, f)
    | .ok f => some (.done, f)
  | .readLine => some (.line (readLine f).1, (readLine f).2)
  | .readLines => (readLines f).map fun r => (.lines r.1, r.2)
  | .parse => (parse parsedValue f).map fun r =>
    match r.1 with
    | .error e => (.threw e, r.2)
    | .ok rows => (.rows rows, r.2)

/-- Whatever was called before, no call is undefined, and reading from the beginning gives
the file in pieces that are not empty, as many as `GetLineCount` says at most. -/
def ReadsWhole (parsedValue : List UInt8 → β) (content : List UInt8) (f : TextFile) : Prop :=
  ∀ calls, ∃ rs f', run (call parsedValue) f calls = some (rs, f') ∧
    ∃ g, reset f' = .ok g ∧ (∀ piece ∈ reads g, piece ≠ []) ∧
      (reads g).flatten = content ∧ (reads g).length ≤ g.lineCount

/-! ## One line -/

theorem scan_of_ge {ptr : Nat} (h : f.endPos ≤ ptr) : scan f ptr = ptr := by
  unfold scan
  rw [dif_neg (by omega)]

theorem scan_stop {ptr : Nat} (h : ptr < f.endPos)
    (hc : f.content[ptr]? = some (lineByte f.lineEnding)) :
    scan f ptr = if f.lineEnding = .crlf then ptr + 1 else ptr := by
  have hc' := (List.getElem?_eq_some_iff.mp hc).2
  unfold scan
  rw [dif_pos h]
  dsimp only
  rw [hc']
  cases f.lineEnding <;> rfl

theorem scan_next {ptr : Nat} (h : ptr < f.endPos)
    (hc : f.content[ptr]? ≠ some (lineByte f.lineEnding)) : scan f ptr = scan f (ptr + 1) := by
  have hlt := Nat.lt_of_lt_of_le h f.endPos_le
  have hc' : getElem f.content ptr hlt ≠ lineByte f.lineEnding := by
    intro h'
    exact hc (h' ▸ List.getElem?_eq_getElem hlt)
  conv_lhs => unfold scan
  rw [dif_pos h]
  dsimp only
  cases he : f.lineEnding with
  | lf => rw [if_neg (by simp), if_neg (fun h => hc' (by rw [he]; exact h.2))]
  | crlf => rw [if_neg (fun h => hc' (by rw [he]; exact h.2)), if_neg (by simp)]

/-- The end that the scan finds is the end of the first line of what it looks at. -/
theorem scan_eq (f : TextFile) (ptr : Nat) (h : ptr ≤ f.endPos) :
    (if scan f ptr < f.endPos then scan f ptr + 1 else scan f ptr) =
      ptr + lineLength f.lineEnding ((f.content.take f.endPos).drop ptr) := by
  have hend := f.endPos_le
  have hlen : (f.content.take f.endPos).length = f.endPos := by
    rw [List.length_take]
    omega
  induction hn : f.endPos - ptr generalizing ptr with
  | zero =>
    rw [scan_of_ge (by omega), if_neg (by omega), List.drop_eq_nil_of_le (by omega)]
    cases f.lineEnding <;> rfl
  | succ n ih =>
    have hlt : ptr < f.endPos := by omega
    have hcons := List.drop_eq_getElem_cons (hlen.symm ▸ hlt)
    rw [List.getElem_take] at hcons
    rw [hcons]
    by_cases hc : f.content[ptr]? = some (lineByte f.lineEnding)
    · have hstop := scan_stop hlt hc
      rw [(List.getElem?_eq_some_iff.mp hc).2]
      cases he : f.lineEnding with
      | lf =>
        rw [hstop.trans (if_neg (by simp [he])), if_pos hlt]
        simp [lineLength, lineByte]
      | crlf =>
        rw [hstop.trans (if_pos he)]
        by_cases hlast : ptr + 1 < f.endPos
        · rw [if_pos hlast, List.drop_eq_getElem_cons (hlen.symm ▸ hlast)]
          simp [lineLength, lineByte]
        · rw [if_neg hlast, List.drop_eq_nil_of_le (by omega)]
          rfl
    · have hc' : getElem f.content ptr (by omega) ≠ lineByte f.lineEnding := by
        intro h'
        exact hc (h' ▸ List.getElem?_eq_getElem (by omega))
      rw [scan_next hlt hc, ih (ptr + 1) (by omega) (by omega), lineLength_next hc']
      omega

theorem lineEnd_eq (f : TextFile) :
    lineEnd f = f.readPos + lineLength f.lineEnding (rest f) :=
  scan_eq f f.readPos f.readPos_le

theorem rest_length (f : TextFile) : (rest f).length = f.endPos - f.readPos := by
  have hend := f.endPos_le
  rw [rest, List.length_drop, List.length_take]
  omega

theorem take_rest {n : Nat} (h : n ≤ (rest f).length) :
    (f.content.drop f.readPos).take n = (rest f).take n := by
  rw [rest_length] at h
  rw [rest, List.drop_take, List.take_take, Nat.min_eq_left h]

/-- **What `ReadLine` does**: it answers the next line and moves behind it. -/
theorem readLine_spec (f : TextFile) :
    (readLine f).1 = (rest f).take (lineLength f.lineEnding (rest f)) ∧
      rest (readLine f).2 = (rest f).drop (lineLength f.lineEnding (rest f)) := by
  have hle := f.readPos_le
  have hlen := rest_length f
  unfold readLine
  split
  · have hnil : rest f = [] := List.length_eq_zero_iff.mp (by omega)
    rw [hnil]
    exact ⟨by simp, by simp⟩
  · rename_i hpos
    have hsize : lineEnd f - f.readPos = lineLength f.lineEnding (rest f) := by
      rw [lineEnd_eq]
      omega
    have hmax := lineLength_le f.lineEnding (rest f)
    refine ⟨?_, ?_⟩
    · show (f.content.drop f.readPos).take (lineEnd f - f.readPos) = _
      rw [hsize, take_rest hmax]
    · show (f.content.take f.endPos).drop (f.readPos + (lineEnd f - f.readPos)) = _
      rw [hsize, ← List.drop_drop]
      rfl

theorem rest_eq_nil_iff : rest f = [] ↔ f.readPos = f.endPos := by
  have hle := f.readPos_le
  rw [← List.length_eq_zero_iff, rest_length]
  omega

theorem readLine_eq_nil_iff : (readLine f).1 = [] ↔ rest f = [] := by
  rw [(readLine_spec f).1, List.take_eq_nil_iff]
  refine ⟨fun h => ?_, Or.inr⟩
  rcases h with h0 | hnil
  · by_contra hne
    have hpos := lineLength_pos f.lineEnding (rest f) hne
    omega
  · exact hnil

theorem readLine_frame (f : TextFile) :
    (readLine f).2.content = f.content ∧ (readLine f).2.mapped = f.mapped ∧
      (readLine f).2.endPos = f.endPos ∧ (readLine f).2.lineCount = f.lineCount ∧
      (readLine f).2.lineEnding = f.lineEnding ∧ (readLine f).2.fileSize = f.fileSize := by
  unfold readLine
  split <;> simp

/-! ## All lines -/

/-- **Reading to the end gives the lines of what is left.** -/
theorem reads_eq (f : TextFile) : reads f = pieces (lineCutter f.lineEnding) (rest f) := by
  fun_induction reads f with
  | case1 f h =>
    rw [readLine_eq_nil_iff.mp h, pieces_nil]
  | case2 f h ih =>
    have hne : rest f ≠ [] := fun hnil => h (readLine_eq_nil_iff.mpr hnil)
    rw [ih, pieces_of_ne_nil _ hne, (readLine_frame f).2.2.2.2.1, (readLine_spec f).1,
      (readLine_spec f).2]
    rfl

theorem reads_length (f : TextFile) : (reads f).length = linesIn f.lineEnding (rest f) := by
  rw [reads_eq, length_pieces_eq]

theorem nextValue_eq_nil_iff {value : List UInt8 → List β}
    (hvalue : ∀ line, line ≠ [] → value line ≠ []) :
    (nextValue value f).1 = [] ↔ (readLine f).1 = [] := by
  unfold nextValue
  dsimp only
  split
  · rename_i h
    exact ⟨fun _ => h, fun _ => rfl⟩
  · rename_i h
    exact ⟨fun h' => absurd h' (hvalue _ h), fun h' => absurd h' h⟩

theorem atEnd_readLine (f : TextFile) : atEnd (readLine f).2 = atEnd f := by
  unfold readLine
  split <;> rfl

theorem readLine_of_nil (h : (readLine f).1 = []) : (readLine f).2 = atEnd f := by
  have hpos := rest_eq_nil_iff.mp (readLine_eq_nil_iff.mp h)
  unfold readLine
  rw [if_pos hpos]
  unfold atEnd
  cases f
  cases hpos
  rfl

theorem reads_of_nil (h : (readLine f).1 = []) : reads f = [] := by
  unfold reads
  rw [dif_pos h]

theorem reads_of_ne_nil (h : (readLine f).1 ≠ []) :
    reads f = (readLine f).1 :: reads (readLine f).2 := by
  conv_lhs => unfold reads
  rw [dif_neg h]

/-- One more line is put into the vector. -/
theorem fillLines_next {value : List UInt8 → List β} {lines : List (List β)} {i : Nat}
    (hvalue : ∀ line, line ≠ [] → value line ≠ []) (h : (readLine f).1 ≠ [])
    (hroom : i < lines.length) :
    fillLines value lines i f =
      if i + 1 < 2 ^ 31 then
        fillLines value (lines.set i (value (readLine f).1)) (i + 1) (readLine f).2
      else none := by
  have hgo : (nextValue value f).1 ≠ [] := fun h' => h ((nextValue_eq_nil_iff hvalue).mp h')
  have hval : (nextValue value f).1 = value (readLine f).1 := if_neg h
  conv_lhs => unfold fillLines
  rw [dif_neg hgo, setLine, if_pos hroom, hval, increment]
  split <;> rfl

/-- The loop of `readLines` and `parse` puts the lines that are left into the vector, as
long as the `int` can count them. -/
theorem fillLines_eq {value : List UInt8 → List β}
    (hvalue : ∀ line, line ≠ [] → value line ≠ []) (lines : List (List β)) (i : Nat)
    (f : TextFile) (hroom : i + (reads f).length ≤ lines.length) (hi : i < 2 ^ 31) :
    fillLines value lines i f =
      if i + (reads f).length < 2 ^ 31 then
        some (lines.take i ++ (reads f).map value ++ lines.drop (i + (reads f).length), atEnd f)
      else none := by
  induction hn : (reads f).length generalizing f i lines with
  | zero =>
    have hreads : reads f = [] := List.length_eq_zero_iff.mp hn
    have hnil : (readLine f).1 = [] := by
      by_contra hne
      exact List.cons_ne_nil _ _ ((reads_of_ne_nil hne).symm.trans hreads)
    have hstop := (nextValue_eq_nil_iff hvalue).mpr hnil
    unfold fillLines
    rw [dif_pos hstop, if_pos (by omega), hreads, List.map_nil, List.append_nil,
      Nat.add_zero, List.take_append_drop]
    exact congrArg (fun g => some (lines, g)) (readLine_of_nil hnil)
  | succ n ih =>
    have hne : (readLine f).1 ≠ [] := by
      intro hnil
      rw [reads_of_nil hnil] at hn
      cases hn
    have hreads := reads_of_ne_nil hne
    have hrest : (reads (readLine f).2).length = n := by
      rw [hreads, List.length_cons] at hn
      omega
    rw [fillLines_next hvalue hne (by omega)]
    by_cases hmore : i + 1 < 2 ^ 31
    · rw [if_pos hmore, ih _ _ _ (by rw [List.length_set]; omega) hmore hrest, atEnd_readLine,
        hreads, Nat.add_right_comm i 1 n, Nat.add_assoc i n 1]
      have hlines : (lines.set i (value (readLine f).1)).take (i + 1) ++
          (reads (readLine f).2).map value ++
            (lines.set i (value (readLine f).1)).drop (i + (n + 1)) =
          lines.take i ++ ((readLine f).1 :: reads (readLine f).2).map value ++
            lines.drop (i + (n + 1)) := by
        rw [List.drop_set_of_lt (by omega), List.take_succ_eq_append_getElem (by
          rw [List.length_set]; omega), List.getElem_set_self, List.take_set_of_le (Nat.le_refl i)]
        simp
      rw [hlines]
    · rw [if_neg hmore, if_neg (by omega)]

/-! ## The calls -/

theorem splitString_ne_nil (str : List UInt8) (delimiter : UInt8) :
    splitString str delimiter ≠ [] := by
  unfold splitString
  split <;> exact List.cons_ne_nil _ _

theorem Opened.rest_eq (h : Opened content f) : rest f = content.drop f.readPos := by
  rw [rest, h.endPos_eq, h.content_eq, List.take_length]

/-- A file that is open can be read again from its beginning. -/
theorem Opened.reset_spec (h : Opened content f) :
    ∃ g, reset f = .ok g ∧ Opened content g ∧ rest g = content ∧
      g.lineCount = f.lineCount ∧ g.lineEnding = f.lineEnding := by
  have hne : f.content.length ≠ 0 := by
    rw [h.content_eq]
    exact fun h0 => h.nonempty (List.length_eq_zero_iff.mp h0)
  unfold reset mapFile
  dsimp only
  rw [if_pos h.mapped]
  dsimp only
  rw [if_neg hne]
  refine ⟨_, rfl, ⟨h.content_eq, h.nonempty, h.mapped, congrArg _ h.content_eq,
    h.lineCount_eq, h.detected⟩, ?_, rfl, rfl⟩
  rw [rest, List.take_length, List.drop_zero, h.content_eq]

theorem Opened.readLine_kept (h : Opened content f) : Opened content (readLine f).2 := by
  obtain ⟨hcontent, hmapped, hend, hcount, hending, _⟩ := readLine_frame f
  exact ⟨hcontent.trans h.content_eq, h.nonempty, hmapped.trans h.mapped, hend.trans h.endPos_eq,
    hcount.trans h.lineCount_eq, h.detected.trans (congrArg _ hending.symm)⟩

theorem Opened.atEnd_kept (h : Opened content f) : Opened content (atEnd f) :=
  ⟨h.content_eq, h.nonempty, h.mapped, h.endPos_eq, h.lineCount_eq, h.detected⟩

/-- A file with CR and LF has as many of the one as of the other. -/
theorem count_lineByte {e : LineEnding} (h : detect content = .ok e) :
    content.count (lineByte e) = content.count lf := by
  unfold detect at h
  dsimp only at h
  split at h
  · split at h
    · cases h
    · rename_i heq
      cases h
      exact not_ne_iff.mp heq
  · cases h
    rfl

/-- `GetLineCount` is never too small. -/
theorem Opened.reads_length_le (h : Opened content f) : (reads f).length ≤ f.lineCount := by
  have hpieces := length_pieces_le (lineCutter f.lineEnding) (lineCutter_endsWith _) (rest f)
  have hdrop : (rest f).countP (· == lineByte f.lineEnding) ≤
      content.count (lineByte f.lineEnding) := by
    rw [h.rest_eq]
    exact List.Sublist.countP_le (List.drop_sublist f.readPos content)
  rw [count_lineByte h.detected] at hdrop
  rw [reads_eq, h.lineCount_eq]
  omega

theorem Opened.fillLines_spec {value : List UInt8 → List β}
    (hvalue : ∀ line, line ≠ [] → value line ≠ []) (h : Opened content f) :
    fillLines value (List.replicate f.lineCount []) 0 f =
      if linesIn f.lineEnding (rest f) < 2 ^ 31 then
        some ((reads f).map value ++
          List.replicate (f.lineCount - linesIn f.lineEnding (rest f)) [], atEnd f)
      else none := by
  have hroom := h.reads_length_le
  rw [fillLines_eq hvalue _ _ _ (by rw [List.length_replicate]; omega) (by decide), Nat.zero_add,
    reads_length, List.take_zero, List.nil_append, List.drop_replicate]

/-- **What `ReadLines` answers**: the lines that are left, and empty ones behind them. -/
theorem Opened.readLines_spec (h : Opened content f)
    (hlines : linesIn f.lineEnding content < 2 ^ 31) :
    readLines f = some (reads f ++
      List.replicate (f.lineCount - linesIn f.lineEnding (rest f)) [], atEnd f) := by
  have hle : linesIn f.lineEnding (rest f) ≤ linesIn f.lineEnding content := by
    rw [h.rest_eq]
    exact linesIn_drop_le _ _ _
  have hvalue : ∀ line : List UInt8, line ≠ [] → id line ≠ [] := fun _ hne => hne
  unfold readLines
  rw [h.fillLines_spec hvalue, if_pos (Nat.lt_of_le_of_lt hle hlines), List.map_id]

/-- **What `Parse` answers**: the values of all lines, and empty rows behind them. -/
theorem Opened.parse_spec (parsedValue : List UInt8 → β) (h : Opened content f) :
    ∃ g, reset f = .ok g ∧ Opened content g ∧ parse parsedValue f =
      if linesIn f.lineEnding content < 2 ^ 31 then
        some (.ok ((reads g).map (fun line => (splitString line 44).map parsedValue) ++
          List.replicate (g.lineCount - linesIn g.lineEnding content) []), atEnd g)
      else none := by
  obtain ⟨g, hreset, hg, hrest, hcount, hending⟩ := h.reset_spec
  refine ⟨g, hreset, hg, ?_⟩
  have hvalue : ∀ line : List UInt8, line ≠ [] → (splitString line 44).map parsedValue ≠ [] :=
    fun line _ hnil => splitString_ne_nil line 44 (List.map_eq_nil_iff.mp hnil)
  unfold parse
  rw [hreset]
  dsimp only
  rw [← hcount, hg.fillLines_spec hvalue, hrest, hending]
  split <;> rfl

/-! ## Every use of a file -/

/-- The files that the constructor accepts. -/
theorem textFile_ok {e : LineEnding} (hne : content.length ≠ 0) (hd : detect content = .ok e) :
    ∃ f, textFile content = .ok f ∧ f.lineEnding = e := by
  unfold textFile read reset mapFile openFile
  dsimp only
  rw [if_neg (by simp), if_neg hne, if_neg hne]
  dsimp only
  rw [if_neg hne]
  dsimp only
  rw [List.drop_zero, List.take_length, hd]
  exact ⟨_, rfl, rfl⟩

theorem textFile_opened (h : textFile content = .ok f) : Opened content f ∧ f.readPos = 0 := by
  unfold textFile read reset mapFile openFile at h
  dsimp only at h
  rw [if_neg (by simp)] at h
  by_cases hne : content.length = 0
  · rw [if_pos hne, if_pos hne] at h
    cases h
  · rw [if_neg hne, if_neg hne] at h
    dsimp only at h
    rw [if_neg hne] at h
    dsimp only at h
    rw [List.drop_zero, List.take_length] at h
    cases hd : detect content with
    | error e =>
      rw [hd] at h
      cases h
    | ok e =>
      rw [hd] at h
      cases h
      refine ⟨⟨rfl, ?_, rfl, rfl, rfl, hd⟩, rfl⟩
      rintro rfl
      exact hne rfl

/-- The pieces of an open file, read from its beginning. -/
theorem Opened.partition (h : Opened content f) : ∃ g, reset f = .ok g ∧
    (∀ piece ∈ reads g, piece ≠ []) ∧ (reads g).flatten = content ∧
      (reads g).length ≤ g.lineCount := by
  obtain ⟨g, hreset, hg, hrest, _, _⟩ := h.reset_spec
  refine ⟨g, hreset, ?_, ?_, hg.reads_length_le⟩
  · intro piece hpiece hnil
    rw [reads_eq] at hpiece
    exact nil_notMem_pieces _ _ (hnil ▸ hpiece)
  · rw [reads_eq, flatten_pieces, hrest]

theorem Opened.call_spec (parsedValue : List UInt8 → β) (h : Opened content f)
    (hlines : linesIn f.lineEnding content < 2 ^ 31) (c : Call) :
    ∃ a g, call parsedValue f c = some (a, g) ∧ Opened content g := by
  cases c with
  | reset =>
    obtain ⟨g, hreset, hg, _⟩ := h.reset_spec
    refine ⟨.done, g, ?_, hg⟩
    unfold call
    rw [hreset]
  | readLine => exact ⟨_, _, rfl, h.readLine_kept⟩
  | readLines =>
    unfold call
    rw [h.readLines_spec hlines]
    exact ⟨_, _, rfl, h.atEnd_kept⟩
  | parse =>
    obtain ⟨g, _, hg, hparse⟩ := h.parse_spec parsedValue
    unfold call
    rw [hparse, if_pos hlines]
    exact ⟨_, _, rfl, hg.atEnd_kept⟩

/-- The `int` that counts the lines is what limits the size of a file. -/
theorem Opened.readsWhole_iff (parsedValue : List UInt8 → β) (h : Opened content f) :
    ReadsWhole parsedValue content f ↔ linesIn f.lineEnding content < 2 ^ 31 := by
  constructor
  · intro hreads
    obtain ⟨rs, f', hrun, _⟩ := hreads [.parse]
    obtain ⟨g, _, _, hparse⟩ := h.parse_spec parsedValue
    by_contra hlines
    rw [if_neg hlines] at hparse
    rw [run_cons, call, hparse] at hrun
    cases hrun
  · intro hlines calls
    have hstep : ∀ g c, Opened content g → ∃ a g', call parsedValue g c = some (a, g') ∧
        Opened content g' := by
      intro g c hg
      apply hg.call_spec parsedValue
      have hending : Except.ok g.lineEnding = Except.ok (ε := Error) f.lineEnding :=
        hg.detected.symm.trans h.detected
      rw [Except.ok.inj hending]
      exact hlines
    obtain ⟨rs, f', hrun, hf'⟩ := run_exists hstep h
    exact ⟨rs, f', hrun, hf'.partition⟩

/-- **Lines partition the file.** Reading it line by line gives the file back in pieces, and
`ReadLines` and `Parse` stay inside of their vector, exactly if it has less than `2 ^ 31`
lines. -/
theorem lines_partition_iff (parsedValue : List UInt8 → β) (content : List UInt8) (f : TextFile)
    (h : textFile content = .ok f) :
    ReadsWhole parsedValue content f ↔ linesIn f.lineEnding content < 2 ^ 31 :=
  (textFile_opened h).1.readsWhole_iff parsedValue

/-- `a` CR CR LF LF `b`: the CRs and LFs need not be adjacent. -/
theorem lines_partition_mixed : ∃ f, textFile [97, 13, 13, 10, 10, 98] = .ok f ∧
    (ReadsWhole id [97, 13, 13, 10, 10, 98] f ↔
      linesIn f.lineEnding [97, 13, 13, 10, 10, 98] < 2 ^ 31) :=
  ⟨_, rfl, lines_partition_iff id _ _ rfl⟩

theorem linesIn_replicate (n : Nat) : linesIn .lf (List.replicate n lf) = n := by
  induction n with
  | zero => rfl
  | succ n ih => rw [List.replicate_succ, linesIn, if_pos rfl, ih]

/-- A file of LFs only, with more lines than an `int` counts. -/
theorem too_many_lines : ∃ f, textFile (List.replicate (2 ^ 31 + 1) lf) = .ok f ∧
    ¬ ReadsWhole id (List.replicate (2 ^ 31 + 1) lf) f := by
  generalize hn : 2 ^ 31 + 1 = n
  have hne : (List.replicate n lf).length ≠ 0 := by
    rw [List.length_replicate]
    omega
  have hcr : (List.replicate n lf).count cr = 0 := by
    rw [List.count_replicate, if_neg (by decide)]
  have hdetect : detect (List.replicate n lf) = .ok .lf := by
    unfold detect
    dsimp only
    rw [hcr, if_neg (by omega)]
  obtain ⟨f, hf, hlf⟩ := textFile_ok hne hdetect
  refine ⟨f, hf, fun hreads => ?_⟩
  have hlines := ((textFile_opened hf).1.readsWhole_iff id).mp hreads
  rw [hlf, linesIn_replicate] at hlines
  omega

end MyLibraries.FileOps
