import MyLibraries.Core.Run
import MyLibraries.FileOps.Model

/-!
# Files and streams

`File` on a POSIX system: an open file is its bytes and the offset of the next access. Sizes
and offsets are not bounded, and writing does not fail. `operator>>` truncates the file and
leaves the offset where it was, so the stream ends up behind as many zeros; `operator<<`
goes to the beginning, but stops at a zero.
-/

namespace MyLibraries.FileOps

open Run

/-- `File::OpenFlags`. -/
inductive OpenFlags
  | readOnly
  | writeOnly
  | readWrite
  deriving DecidableEq, Repr

/-- `File::SeekAt`. -/
inductive SeekAt
  | set
  | current
  | fileEnd
  deriving DecidableEq, Repr

/-- What stands behind a file descriptor. -/
structure Descriptor where
  content : List UInt8
  offset : Nat
  deriving DecidableEq, Repr

namespace Descriptor

/-- `lseek`; `EINVAL` in front of the beginning. -/
def lseek (d : Descriptor) (offset : Int) (whence : SeekAt) : Except Error Descriptor :=
  let base :=
    match whence with
    | .set => 0
    | .current => d.offset
    | .fileEnd => d.content.length
  if (base : Int) + offset < 0 then .error (.systemError 22)
  else .ok { d with offset := ((base : Int) + offset).toNat }

/-- `read`: less than `size` bytes at the end of the file. -/
def read (d : Descriptor) (size : Nat) : List UInt8 × Descriptor :=
  let data := (d.content.drop d.offset).take size
  (data, { d with offset := d.offset + data.length })

/-- `write`: zeros up to the offset if it is past the end. -/
def write (d : Descriptor) (data : List UInt8) : Nat × Descriptor :=
  if data = [] then (0, d)
  else
    let hole := List.replicate (d.offset - d.content.length) 0
    (data.length,
      { content := d.content.take d.offset ++ hole ++ data ++
          d.content.drop (d.offset + data.length)
        offset := d.offset + data.length })

/-- `ftruncate(fd, 0)`. -/
def truncate (d : Descriptor) : Descriptor := { d with content := [] }

/-- The loop of `operator>>`. -/
def copy (d : Descriptor) : List UInt8 → Descriptor
  | [] => d
  | c :: input => copy (d.write [c]).2 input

end Descriptor

/-- An open `File`. -/
structure File where
  openFlags : OpenFlags
  fd : Descriptor
  deriving DecidableEq, Repr

/-- `File(path, OpenFlags::READ_WRITE)` for a file with the bytes `content`. -/
def openReadWrite (content : List UInt8) : File := ⟨.readWrite, ⟨content, 0⟩⟩

/-- The loop of `operator<<`. -/
def putBytes : List UInt8 → List UInt8
  | [] => []
  | c :: buffer => if c = 0 then [] else c :: putBytes buffer

namespace File

/-- `File::Seek`. -/
def seek (f : File) (offset : Int) (seekAt : SeekAt) : Except Error Unit × File :=
  match f.fd.lseek offset seekAt with
  | .error e => (.error e, f)
  | .ok fd => (.ok (), { f with fd })

/-- `File::Write`. -/
def write (f : File) (data : List UInt8) : Except Error Unit × File :=
  if f.openFlags = .readOnly then (.error (.runtimeError "File is not open for writing"), f)
  else
    let (ret, fd) := f.fd.write data
    if ret ≠ data.length then (.error (.lengthError "Invalid data size written"), { f with fd })
    else (.ok (), { f with fd })

/-- `File::Read(dst, size)`. -/
def read (f : File) (size : Nat) : Except Error (List UInt8) × File :=
  if f.openFlags = .writeOnly then (.error (.runtimeError "File is not open for reading"), f)
  else
    let (data, fd) := f.fd.read size
    if data.length ≠ size then (.error (.lengthError "Invalid data size read"), { f with fd })
    else (.ok data, { f with fd })

/-- `operator<<`, to a stream that takes everything; `mmap` refuses a file that is not open
for reading with `EACCES`. -/
def insert (f : File) : Except Error (List UInt8) × File :=
  match f.fd.lseek 0 .set with
  | .error e => (.error e, f)
  | .ok fd =>
    if fd.content.length = 0 then (.ok [], { f with fd })
    else if f.openFlags = .writeOnly then (.error (.systemError 13), { f with fd })
    else (.ok (putBytes fd.content), { f with fd })

/-- `File::Read()`. -/
def readAll (f : File) : Except Error (List UInt8) × File := f.insert

/-- `operator>>`, from a stream with the bytes `input`: what is left of it, and the file;
`ftruncate` refuses a file that is not open for writing. -/
def extract (f : File) (input : List UInt8) : List UInt8 × File :=
  if f.openFlags = .readOnly then (input, f)
  else
    let fd := f.fd.truncate
    match fd.lseek 0 .current with
    | .error _ => (input, { f with fd })
    | .ok fd => ([], { f with fd := fd.copy input })

end File

/-- The calls that move the offset. -/
inductive FileCall
  | read (size : Nat)
  | readAll
  | write (data : List UInt8)
  | seek (offset : Int) (seekAt : SeekAt)
  deriving DecidableEq, Repr

/-- A call: the bytes that it gives or the exception that it throws. -/
def File.call (f : File) : FileCall → Except Error (List UInt8) × File
  | .read size => f.read size
  | .readAll => f.readAll
  | .write data => ((f.write data).1.map fun _ => [], (f.write data).2)
  | .seek offset seekAt => ((f.seek offset seekAt).1.map fun _ => [], (f.seek offset seekAt).2)

/-- The bytes of the stream are the file, and `File::Read` gives them all back. -/
def Streams (f : File) (input : List UInt8) : Prop :=
  (f.extract input).2.fd.content = input ∧ (f.extract input).2.readAll.1 = .ok input

variable {d : Descriptor} {f : File} {input data : List UInt8}

/-! ## Writing past the end -/

namespace Descriptor

theorem lseek_current (d : Descriptor) : d.lseek 0 .current = .ok d := by
  unfold lseek
  dsimp only
  rw [if_neg (by omega)]
  rfl

theorem lseek_set (d : Descriptor) : d.lseek 0 .set = .ok { d with offset := 0 } := rfl

theorem write_past (h : d.content.length ≤ d.offset) (hdata : data ≠ []) :
    (d.write data).2 =
      ⟨d.content ++ List.replicate (d.offset - d.content.length) 0 ++ data,
        d.offset + data.length⟩ := by
  rw [write, if_neg hdata, List.take_of_length_le h, List.drop_of_length_le (by omega)]
  dsimp only
  rw [List.append_nil]

theorem copy_at_end (h : d.offset = d.content.length) (input : List UInt8) :
    d.copy input = ⟨d.content ++ input, d.content.length + input.length⟩ := by
  induction input generalizing d with
  | nil =>
    rw [copy, List.append_nil, List.length_nil, Nat.add_zero, ← h]
  | cons c input ih =>
    have hwrite := write_past (Nat.le_of_eq h.symm) (List.cons_ne_nil c [])
    rw [h, Nat.sub_self, List.replicate_zero, List.append_nil] at hwrite
    rw [copy, hwrite, ih (by simp)]
    simp [Nat.add_assoc, Nat.add_comm 1]

/-- What the loop of `operator>>` leaves. -/
theorem copy_truncate (hinput : input ≠ []) :
    (d.truncate.copy input).content = List.replicate d.offset 0 ++ input := by
  obtain ⟨c, input, rfl⟩ := List.exists_cons_of_ne_nil hinput
  have hwrite : (d.truncate.write [c]).2 = ⟨List.replicate d.offset 0 ++ [c], d.offset + 1⟩ :=
    write_past (Nat.zero_le _) (List.cons_ne_nil c [])
  rw [copy, hwrite, copy_at_end (by simp), List.append_assoc]
  rfl

end Descriptor

/-! ## Reading -/

theorem putBytes_eq_iff (buffer : List UInt8) : putBytes buffer = buffer ↔ 0 ∉ buffer := by
  induction buffer with
  | nil => simp [putBytes]
  | cons c buffer ih =>
    rw [putBytes, List.mem_cons, not_or, ← ih]
    by_cases hc : c = 0
    · rw [if_pos hc]
      exact ⟨fun h => absurd h.symm (List.cons_ne_nil c buffer), fun h => absurd hc.symm h.1⟩
    · rw [if_neg hc, List.cons_inj_right]
      exact ⟨fun h => ⟨fun h0 => hc h0.symm, h⟩, fun h => h.2⟩

theorem readAll_content (h : f.openFlags = .readWrite) :
    f.readAll.1 = .ok (putBytes f.fd.content) := by
  rw [File.readAll, File.insert, Descriptor.lseek_set]
  dsimp only
  split
  · rename_i hlen
    rw [List.length_eq_zero_iff.mp hlen]
    rfl
  · rw [if_neg (by rw [h]; decide)]

/-! ## Every use of a file -/

theorem call_openFlags (f : File) (c : FileCall) : (f.call c).2.openFlags = f.openFlags := by
  cases c with
  | read size =>
    show (f.read size).2.openFlags = f.openFlags
    unfold File.read
    split
    · rfl
    · dsimp only
      split
      · rfl
      · rfl
  | readAll =>
    show f.insert.2.openFlags = f.openFlags
    unfold File.insert
    split
    · rfl
    · split
      · rfl
      · split
        · rfl
        · rfl
  | write data =>
    show (f.write data).2.openFlags = f.openFlags
    unfold File.write
    split
    · rfl
    · dsimp only
      split
      · rfl
      · rfl
  | seek offset seekAt =>
    show (f.seek offset seekAt).2.openFlags = f.openFlags
    unfold File.seek
    split
    · rfl
    · rfl

/-- What the stream leaves in a file that can be written. -/
theorem extract_eq (h : f.openFlags = .readWrite) :
    (f.extract input).2 = { f with fd := f.fd.truncate.copy input } := by
  rw [File.extract, if_neg (by rw [h]; decide)]
  dsimp only
  rw [Descriptor.lseek_current]

theorem streams_iff_offset (h : f.openFlags = .readWrite) :
    Streams f input ↔ (f.fd.offset = 0 ∨ input = []) ∧ 0 ∉ input := by
  have hread : (f.extract input).2.readAll.1 =
      .ok (putBytes (f.fd.truncate.copy input).content) := by
    rw [extract_eq h]
    exact readAll_content h
  rw [Streams, hread, extract_eq h]
  by_cases hinput : input = []
  · subst hinput
    simp [Descriptor.copy, Descriptor.truncate, putBytes]
  · rw [Descriptor.copy_truncate hinput]
    by_cases hoffset : f.fd.offset = 0
    · rw [hoffset, List.replicate_zero, List.nil_append, Except.ok.injEq, putBytes_eq_iff]
      simp
    · have hlen : List.replicate f.fd.offset 0 ++ input ≠ input := by
        intro heq
        have := congrArg List.length heq
        rw [List.length_append, List.length_replicate] at this
        omega
      simp [hlen, hinput, hoffset]

/-- **Stream in, stream out.** Whatever was called before, the stream becomes the file and
is read back exactly if the offset is at the beginning, or there is nothing in the stream,
and no byte of it is zero. -/
theorem streams_iff (content : List UInt8) (calls : List FileCall) (input : List UInt8) :
    Streams (exec File.call (openReadWrite content) calls).2 input ↔
      ((exec File.call (openReadWrite content) calls).2.fd.offset = 0 ∨ input = []) ∧
        0 ∉ input := by
  have hopen : (openReadWrite content).openFlags = .readWrite := rfl
  apply streams_iff_offset
  exact inv_of_exec (fun f : File => f.openFlags = .readWrite)
    (fun f c hf => (call_openFlags f c).trans hf) hopen calls

/-- `A` written, and then the stream `B`; and a stream with a zero in it. -/
theorem streams_broken :
    ¬ Streams (exec File.call (openReadWrite []) [.write [65]]).2 [66] ∧
      ¬ Streams (exec File.call (openReadWrite []) []).2 [66, 0, 67] := by
  constructor
  · exact fun h => absurd h.1 (by decide)
  · exact fun h => absurd h.2 (by decide)

end MyLibraries.FileOps
