import MyLibraries.FileOps.Reading
import MyLibraries.FileOps.Stream

/-!
# Opening another file

The number of lines and the line ending are those of the file that the constructor has read,
or none and LF without one; `Open` and `Close` leave them (`history_kept`). `Parse` and
`ReadLines` take them for those of the file that is open now.
-/

namespace MyLibraries.FileOps

open Run

/-- What an object holds of an open file; `mapped` says that `fileMapping` is set. -/
structure OpenedFile where
  flags : OpenFlags
  content : List UInt8
  mapped : Bool
  deriving DecidableEq, Repr

/-- A `CSVFile`; the positions of reading are set by `Reset`. -/
structure CsvFile where
  file : Option OpenedFile
  lineCount : Nat
  lineEnding : LineEnding
  deriving DecidableEq, Repr

/-- `Reset` and `ReadLines`. -/
def resetReadLines (f : TextFile) : Option (Except Error (List (List UInt8))) :=
  match reset f with
  | .error e => some (.error e)
  | .ok f => (readLines f).map fun r => .ok r.1

namespace CsvFile

/-- `CSVFile()`, or `CSVFile(path)` for a file with the given bytes. -/
def construct : Option (List UInt8) → Except Error CsvFile
  | none => .ok ⟨none, 0, .lf⟩
  | some content =>
    match textFile content with
    | .error e => .error e
    | .ok f => .ok ⟨some ⟨.readOnly, f.content, f.mapped⟩, f.lineCount, f.lineEnding⟩

/-- `File::Open`; `result` is what `open` says, the `errno` or a file with its bytes. -/
def openPath (c : CsvFile) (flags : OpenFlags) (result : Except Nat (List UInt8)) :
    Except Error Unit × CsvFile :=
  match c.file with
  | some _ => (.error (.runtimeError "File is already open"), c)
  | none =>
    match result with
    | .error errno => (.error (.systemError errno), c)
    | .ok content => (.ok (), { c with file := some ⟨flags, content, false⟩ })

/-- `File::Close`. -/
def close (c : CsvFile) : CsvFile := { c with file := none }

/-- What `Reset` begins with: `checkFileOpen`, and `mmap` refuses a file that is not open for
reading with `EACCES`. -/
def readable (c : CsvFile) : Except Error TextFile :=
  match c.file with
  | none => .error (.runtimeError "File is not open")
  | some o =>
    if o.mapped = false ∧ o.content ≠ [] ∧ o.flags = .writeOnly then .error (.systemError 13)
    else .ok
      { openFile o.content with
        mapped := o.mapped, lineCount := c.lineCount, lineEnding := c.lineEnding }

/-- `Reset` and `ReadLines`. -/
def readLines (c : CsvFile) : Option (Except Error (List (List UInt8))) :=
  match c.readable with
  | .error e => some (.error e)
  | .ok f => resetReadLines f

/-- `CSVFile::Parse`. -/
def parse {β : Type} (parsedValue : List UInt8 → β) (c : CsvFile) :
    Option (Except Error (List (List β))) :=
  match c.readable with
  | .error e => some (.error e)
  | .ok f => (FileOps.parse parsedValue f).map Prod.fst

end CsvFile

/-- The calls that change the open file. -/
inductive FileChange
  | openPath (flags : OpenFlags) (result : Except Nat (List UInt8))
  | close

def CsvFile.change (c : CsvFile) : FileChange → Except Error Unit × CsvFile
  | .openPath flags result => c.openPath flags result
  | .close => (.ok (), c.close)

/-- `Parse` does not write past the end of its vector, and neither do `Reset` and
`ReadLines`. -/
def InBounds {β : Type} (parsedValue : List UInt8 → β) (c : CsvFile) : Prop :=
  (c.parse parsedValue).isSome ∧ c.readLines.isSome

variable {β : Type} {f g : TextFile} {c c' : CsvFile} {content : List UInt8}

/-! ## The vector of lines -/

/-- More lines than there is room for. -/
theorem fillLines_overfull {value : List UInt8 → List β}
    (hvalue : ∀ line, line ≠ [] → value line ≠ []) (lines : List (List β)) (i : Nat)
    (f : TextFile) (hroom : i ≤ lines.length) (hmore : lines.length < i + (reads f).length) :
    fillLines value lines i f = none := by
  induction hn : (reads f).length generalizing f i lines with
  | zero => omega
  | succ n ih =>
    have hne : (readLine f).1 ≠ [] := by
      intro hnil
      rw [reads_of_nil hnil] at hn
      cases hn
    have hrest : (reads (readLine f).2).length = n := by
      rw [reads_of_ne_nil hne, List.length_cons] at hn
      omega
    by_cases hfull : i < lines.length
    · rw [fillLines_next hvalue hne hfull]
      split
      · exact ih _ _ _ (by rw [List.length_set]; omega) (by rw [List.length_set]; omega) hrest
      · rfl
    · -- the first index past the end
      have hgo : (nextValue value f).1 ≠ [] := fun h => hne ((nextValue_eq_nil_iff hvalue).mp h)
      unfold fillLines
      rw [dif_neg hgo, setLine, if_neg hfull]
      rfl

/-- The loop of `readLines` and `parse` is defined exactly if there is room for the lines
and the `int` can count them. -/
theorem fillLines_isSome {value : List UInt8 → List β}
    (hvalue : ∀ line, line ≠ [] → value line ≠ []) (lineCount : Nat) (f : TextFile) :
    (fillLines value (List.replicate lineCount []) 0 f).isSome ↔
      linesIn f.lineEnding (rest f) ≤ lineCount ∧ linesIn f.lineEnding (rest f) < 2 ^ 31 := by
  have hlen : (List.replicate lineCount ([] : List β)).length = lineCount :=
    List.length_replicate
  rw [← reads_length]
  by_cases hall : (reads f).length ≤ lineCount
  · rw [fillLines_eq hvalue _ 0 f (by rw [hlen]; omega) (by decide), Nat.zero_add]
    split
    · rename_i hcount
      exact ⟨fun _ => ⟨hall, hcount⟩, fun _ => rfl⟩
    · rename_i hcount
      exact ⟨fun h => Bool.noConfusion h, fun h => absurd h.2 hcount⟩
  · rw [fillLines_overfull hvalue _ 0 f (Nat.zero_le _) (by rw [hlen]; omega)]
    exact ⟨fun h => Bool.noConfusion h, fun h => absurd h.1 hall⟩

/-- `Reset` fails for an empty file only, and goes to the beginning. -/
theorem reset_cases (f : TextFile) :
    (∃ e, reset f = .error e ∧ f.content = []) ∨
      ∃ g, reset f = .ok g ∧ rest g = f.content ∧ g.lineCount = f.lineCount ∧
        g.lineEnding = f.lineEnding := by
  have hrest : ∀ content : List UInt8, (content.take content.length).drop 0 = content := by
    intro content
    rw [List.take_length, List.drop_zero]
  unfold reset mapFile
  dsimp only
  by_cases hlen : f.content.length = 0
  · left
    have hnil := List.length_eq_zero_iff.mp hlen
    by_cases hmapped : f.mapped = true
    · rw [if_pos hmapped]
      dsimp only
      rw [if_pos hlen]
      exact ⟨_, rfl, hnil⟩
    · rw [if_neg hmapped, if_pos hlen, if_pos hlen]
      exact ⟨_, rfl, hnil⟩
  · right
    by_cases hmapped : f.mapped = true
    · rw [if_pos hmapped]
      dsimp only
      rw [if_neg hlen]
      exact ⟨_, rfl, hrest _, rfl, rfl⟩
    · rw [if_neg hmapped, if_neg hlen, if_neg hlen]
      dsimp only
      rw [if_neg hlen]
      exact ⟨_, rfl, hrest _, rfl, rfl⟩

/-! ## The calls -/

theorem linesIn_nil (e : LineEnding) : linesIn e [] = 0 := by
  cases e
  · rfl
  · rfl

theorem parse_isSome (parsedValue : List UInt8 → β) (f : TextFile) :
    (FileOps.parse parsedValue f).isSome ↔
      linesIn f.lineEnding f.content ≤ f.lineCount ∧ linesIn f.lineEnding f.content < 2 ^ 31 := by
  unfold FileOps.parse
  obtain ⟨e, hreset, hnil⟩ | ⟨g, hreset, hrest, -, hending⟩ := reset_cases f
  · rw [hreset, hnil, linesIn_nil]
    exact ⟨fun _ => ⟨Nat.zero_le _, by decide⟩, fun _ => rfl⟩
  · have hvalue : ∀ line : List UInt8, line ≠ [] → (splitString line 44).map parsedValue ≠ [] :=
      fun line _ hnil => splitString_ne_nil line 44 (List.map_eq_nil_iff.mp hnil)
    have hfill := fillLines_isSome hvalue f.lineCount g
    rw [hrest, hending] at hfill
    rw [hreset]
    dsimp only
    rw [Option.isSome_map, hfill]

theorem resetReadLines_isSome (f : TextFile) : (resetReadLines f).isSome ↔
    linesIn f.lineEnding f.content ≤ f.lineCount ∧ linesIn f.lineEnding f.content < 2 ^ 31 := by
  unfold resetReadLines
  obtain ⟨e, hreset, hnil⟩ | ⟨g, hreset, hrest, hcount, hending⟩ := reset_cases f
  · rw [hreset, hnil, linesIn_nil]
    exact ⟨fun _ => ⟨Nat.zero_le _, by decide⟩, fun _ => rfl⟩
  · have hvalue : ∀ line : List UInt8, line ≠ [] → id line ≠ [] := fun _ hne => hne
    have hfill := fillLines_isSome hvalue g.lineCount g
    rw [hrest, hending, hcount] at hfill
    rw [hreset]
    dsimp only
    rw [Option.isSome_map, readLines, hcount, hfill]

/-- What the constructor has found stays, and what it has mapped is open for reading. -/
structure Kept (c c' : CsvFile) : Prop where
  lineCount_eq : c'.lineCount = c.lineCount
  lineEnding_eq : c'.lineEnding = c.lineEnding
  mapped_read : ∀ o, c'.file = some o → o.mapped = true → o.flags = .readOnly

theorem construct_kept {path : Option (List UInt8)} (h : CsvFile.construct path = .ok c) :
    Kept c c := by
  refine ⟨rfl, rfl, fun o ho _ => ?_⟩
  unfold CsvFile.construct at h
  split at h
  · cases h
    cases ho
  · split at h
    · cases h
    · cases h
      cases ho
      rfl

/-- Neither `Open` nor `Close` sets the number of lines or the line ending. -/
theorem change_kept (h : Kept c c') (change : FileChange) : Kept c (c'.change change).2 := by
  cases change with
  | openPath flags result =>
    show Kept c (c'.openPath flags result).2
    unfold CsvFile.openPath
    split
    · exact h
    · split
      · exact h
      · refine ⟨h.lineCount_eq, h.lineEnding_eq, fun o ho hmapped => ?_⟩
        obtain rfl := Option.some.inj ho
        cases hmapped
  | close =>
    refine ⟨h.lineCount_eq, h.lineEnding_eq, fun o ho _ => ?_⟩
    cases ho

theorem history_kept {path : Option (List UInt8)} (h : CsvFile.construct path = .ok c)
    (history : List FileChange) : Kept c (exec CsvFile.change c history).2 :=
  inv_of_exec (Kept c) (fun _ change hc => change_kept hc change) (construct_kept h) history

theorem inBounds_iff (parsedValue : List UInt8 → β) (h : Kept c c') :
    InBounds parsedValue c' ↔
      ∀ o, c'.file = some o → o.flags ≠ .writeOnly →
        linesIn c.lineEnding o.content ≤ c.lineCount ∧
          linesIn c.lineEnding o.content < 2 ^ 31 := by
  rw [← h.lineCount_eq, ← h.lineEnding_eq]
  unfold InBounds CsvFile.parse CsvFile.readLines CsvFile.readable
  cases hfile : c'.file with
  | none => simp
  | some o =>
    simp only [Option.some.injEq, forall_eq']
    by_cases hrefused : o.mapped = false ∧ o.content ≠ [] ∧ o.flags = .writeOnly
    · rw [if_pos hrefused]
      exact ⟨fun _ hflags => absurd hrefused.2.2 hflags, fun _ => ⟨rfl, rfl⟩⟩
    · rw [if_neg hrefused]
      simp only [Option.isSome_map, parse_isSome, resetReadLines_isSome, and_self, openFile]
      refine ⟨fun hlines _ => hlines, fun hlines => ?_⟩
      by_cases hflags : o.flags = .writeOnly
      · -- it is empty, for nothing else that is open for writing only is mapped
        have hempty : o.content = [] := by
          by_contra hne
          apply hrefused
          refine ⟨Bool.eq_false_iff.mpr fun hmapped => ?_, hne, hflags⟩
          have := h.mapped_read o hfile hmapped
          rw [hflags] at this
          cases this
        rw [hempty, linesIn_nil]
        exact ⟨Nat.zero_le _, by decide⟩
      · exact hlines hflags

/-- **Reading after re-opening.** After any construction and any calls of `Open` and `Close`,
`Parse`, and `Reset` with `ReadLines`, stay inside of their vector exactly if no file is open
for reading, or its lines, as the constructor would end them, are not more than the
constructor has counted, and less than `2 ^ 31`. -/
theorem reopen_iff (parsedValue : List UInt8 → β) (path : Option (List UInt8)) (c : CsvFile)
    (h : CsvFile.construct path = .ok c) (history : List FileChange) :
    InBounds parsedValue (exec CsvFile.change c history).2 ↔
      ∀ o, (exec CsvFile.change c history).2.file = some o → o.flags ≠ .writeOnly →
        linesIn c.lineEnding o.content ≤ c.lineCount ∧
          linesIn c.lineEnding o.content < 2 ^ 31 :=
  inBounds_iff parsedValue (history_kept h history)

/-- A file of two lines is opened after one of one line. -/
theorem reopen_longer : ∃ c, CsvFile.construct (some [97]) = .ok c ∧
    (InBounds id (exec CsvFile.change c [.close, .openPath .readOnly (.ok [97, 10, 98])]).2 ↔
      ∀ o, (exec CsvFile.change c
          [.close, .openPath .readOnly (.ok [97, 10, 98])]).2.file = some o →
        o.flags ≠ .writeOnly → linesIn c.lineEnding o.content ≤ c.lineCount ∧
          linesIn c.lineEnding o.content < 2 ^ 31) :=
  ⟨_, rfl, reopen_iff id (some [97]) _ rfl _⟩

/-- An object that is constructed without a path opens a file of one line. -/
theorem reopen_out_of_bounds : ∃ c, CsvFile.construct none = .ok c ∧
    ¬ InBounds id (exec CsvFile.change c [.openPath .readOnly (.ok [97])]).2 := by
  refine ⟨_, rfl, fun h => ?_⟩
  have hdefault : CsvFile.construct none = .ok ⟨none, 0, .lf⟩ := rfl
  have hlines := (inBounds_iff id (history_kept hdefault _)).mp h _ rfl (by decide)
  exact absurd hlines.1 (by decide)

end MyLibraries.FileOps
