import Mathlib.Algebra.Group.Nat.Defs
import Mathlib.Data.List.Basic
import MyLibraries.Core.Run

/-!
# Reading a text file line by line

`TextFile` maps a file into memory and hands it out line by line; positions are offsets
into the mapping. The constructor finds out the line ending from the numbers of CR and LF
bytes. In `readLines` and `parse`, `none` is undefined behaviour: an index outside of the
vector of lines, or an overflow of the `int` that counts them.
-/

namespace MyLibraries.FileOps

/-- The exceptions that are thrown. -/
inductive Error
  | systemError (errno : Nat)
  | lengthError (what : String)
  | runtimeError (what : String)
  deriving DecidableEq, Repr

inductive LineEnding
  | crlf
  | lf
  deriving DecidableEq, Repr

/-- `'\r'`. -/
def cr : UInt8 := 13

/-- `'\n'`. -/
def lf : UInt8 := 10

/-- An open file with the bytes `content`; `mapped` says that `fileMapping` is set. -/
structure TextFile where
  content : List UInt8
  mapped : Bool
  readPos : Nat
  endPos : Nat
  fileSize : Nat
  lineCount : Nat
  lineEnding : LineEnding
  readPos_le : readPos ≤ endPos
  endPos_le : endPos ≤ content.length

/-- `File(path, OpenFlags::READ_ONLY)` for a file with the bytes `content`. -/
def openFile (content : List UInt8) : TextFile :=
  { content, mapped := false, readPos := 0, endPos := 0, fileSize := 0, lineCount := 0,
    lineEnding := .lf, readPos_le := Nat.le_refl 0, endPos_le := Nat.zero_le _ }

/-- `File::MapFile`; `mmap` refuses an empty mapping with `EINVAL`. -/
def mapFile (f : TextFile) (size : Nat) : Except Error TextFile :=
  if f.mapped then .ok f
  else
    let size := if size = 0 then f.content.length else size
    if size = 0 then .error (.systemError 22) else .ok { f with mapped := true }

/-- `TextFile::Reset`. -/
def reset (f : TextFile) : Except Error TextFile :=
  let fileSize := f.content.length
  match mapFile { f with fileSize } fileSize with
  | .error e => .error e
  | .ok f =>
    if fileSize = 0 then .error (.lengthError "File is empty")
    else .ok { f with
      readPos := 0, endPos := f.content.length, readPos_le := Nat.zero_le _,
      endPos_le := Nat.le_refl _ }

/-- `TextFile::Read`. -/
def read (f : TextFile) : Except Error (List UInt8 × TextFile) :=
  match reset f with
  | .error e => .error e
  | .ok f => .ok ((f.content.drop f.readPos).take f.fileSize, f)

/-- The line ending that the constructor finds. -/
def detect (content : List UInt8) : Except Error LineEnding :=
  let rCnt := content.count cr
  let nCnt := content.count lf
  if rCnt > 0 ∧ nCnt > 0 then
    if rCnt ≠ nCnt then
      .error (.runtimeError "Inconsistent line endings detected in file")
    else .ok .crlf
  else .ok .lf

/-- `TextFile::TextFile(path)`. -/
def textFile (content : List UInt8) : Except Error TextFile :=
  match read (openFile content) with
  | .error e => .error e
  | .ok (content, f) =>
    match detect content with
    | .error e => .error e
    | .ok lineEnding => .ok { f with lineEnding, lineCount := content.count lf + 1 }

/-- The scan of `ReadLine` for the end of the line. -/
def scan (f : TextFile) (ptr : Nat) : Nat :=
  if h : ptr < f.endPos then
    let c := getElem f.content ptr (Nat.lt_of_lt_of_le h f.endPos_le)
    if f.lineEnding = .crlf ∧ c = cr then ptr + 1
    else if f.lineEnding = .lf ∧ c = lf then ptr
    else scan f (ptr + 1)
  else ptr
termination_by f.endPos - ptr

/-- Where the line that begins at `readPos` ends. -/
def lineEnd (f : TextFile) : Nat :=
  let ptr := scan f f.readPos
  if ptr < f.endPos then ptr + 1 else ptr

theorem scan_bounds (f : TextFile) (ptr : Nat) (h : ptr ≤ f.endPos) :
    ptr ≤ scan f ptr ∧ scan f ptr ≤ f.endPos := by
  induction hn : f.endPos - ptr generalizing ptr with
  | zero =>
    unfold scan
    rw [dif_neg (by omega)]
    omega
  | succ n ih =>
    unfold scan
    rw [dif_pos (by omega)]
    dsimp only
    have hrest := ih (ptr + 1) (by omega) (by omega)
    split
    · omega
    · split <;> omega

theorem lineEnd_bounds (f : TextFile) : f.readPos ≤ lineEnd f ∧ lineEnd f ≤ f.endPos := by
  have hscan := scan_bounds f f.readPos f.readPos_le
  unfold lineEnd
  dsimp only
  split <;> omega

/-- `TextFile::ReadLine`. -/
def readLine (f : TextFile) : List UInt8 × TextFile :=
  if f.readPos = f.endPos then ([], f)
  else
    let size := lineEnd f - f.readPos
    ((f.content.drop f.readPos).take size,
      { f with
        readPos := f.readPos + size
        readPos_le := by
          have hend := lineEnd_bounds f
          omega })

/-- A line that is not empty was in front of the end of the file. -/
theorem readLine_advances {f : TextFile} (h : (readLine f).1 ≠ []) :
    (readLine f).2.endPos - (readLine f).2.readPos < f.endPos - f.readPos := by
  have hle := f.readPos_le
  unfold readLine at h ⊢
  split at h
  · exact absurd rfl h
  · rename_i hpos
    rw [if_neg hpos]
    have hsize : lineEnd f - f.readPos ≠ 0 := by
      intro h0
      apply h
      show (f.content.drop f.readPos).take (lineEnd f - f.readPos) = []
      rw [h0, List.take_zero]
    dsimp only
    omega

/-- `splitString`: the last column loses its last byte. -/
def splitString (str : List UInt8) (delimiter : UInt8) : List (List UInt8) :=
  match _h : str.dropWhile (· != delimiter) with
  | [] => [str.dropLast]
  | _ :: rest => str.takeWhile (· != delimiter) :: splitString rest delimiter
termination_by str.length
decreasing_by
  have hlen := (List.dropWhile_suffix (l := str) (· != delimiter)).length_le
  rw [_h, List.length_cons] at hlen
  omega

/-- The value of the next line: nothing at the end of the file. -/
def nextValue {β : Type} (value : List UInt8 → List β) (f : TextFile) : List β × TextFile :=
  let line := (readLine f).1
  (if line = [] then [] else value line, (readLine f).2)

/-- `CSVFile::ParseNextLine`, with the constructor of `ParsedValue`. -/
def parseNextLine {β : Type} (parsedValue : List UInt8 → β) : TextFile → List β × TextFile :=
  nextValue fun line => (splitString line 44).map parsedValue

/-- `lines[lineIndex] = line`. -/
def setLine {β : Type} (lines : List β) (lineIndex : Nat) (line : β) : Option (List β) :=
  if lineIndex < lines.length then some (lines.set lineIndex line) else none

/-- `lineIndex++`, of an `int`. -/
def increment (lineIndex : Nat) : Option Nat :=
  if lineIndex + 1 < 2 ^ 31 then some (lineIndex + 1) else none

/-- The loop of `ReadLines` and of `Parse`. -/
def fillLines {β : Type} (value : List UInt8 → List β) (lines : List (List β))
    (lineIndex : Nat) (f : TextFile) : Option (List (List β) × TextFile) :=
  if _h : (nextValue value f).1 = [] then some (lines, (nextValue value f).2)
  else do
    let lines ← setLine lines lineIndex (nextValue value f).1
    let lineIndex ← increment lineIndex
    fillLines value lines lineIndex (nextValue value f).2
termination_by f.endPos - f.readPos
decreasing_by
  apply readLine_advances
  intro hline
  exact _h (if_pos hline)

/-- `TextFile::ReadLines`. -/
def readLines (f : TextFile) : Option (List (List UInt8) × TextFile) :=
  fillLines id (List.replicate f.lineCount []) 0 f

/-- `CSVFile::Parse`. -/
def parse {β : Type} (parsedValue : List UInt8 → β) (f : TextFile) :
    Option (Except Error (List (List β)) × TextFile) :=
  match reset f with
  | .error e => some (.error e, f)
  | .ok g =>
    (fillLines (fun line => (splitString line 44).map parsedValue)
      (List.replicate f.lineCount []) 0 g).map fun r => (.ok r.1, r.2)

end MyLibraries.FileOps
