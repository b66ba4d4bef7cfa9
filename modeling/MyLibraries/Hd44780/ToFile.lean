import MyLibraries.Core.Memory
import MyLibraries.FileOps.Stream

/-!
# The `HD44780` display in a file

`HD44780_ToFileBase` prints into a mapping of its file. `Clear` lays the file out in rows of
`row_size` blanks and the array `newline`, which is four bytes with the terminator of its
literal; the cursor counts three. So row `r` begins `r` bytes too early, on the row in front of
it, unless the column makes up for them; the check of the position admits the row behind the
last one; and a text is cut to a whole row wherever in the row it begins. That is all:
a run of prints stays in its rows exactly if none of the three happens (`keepsRows_iff`).
-/

namespace MyLibraries.Hd44780.ToFile

open Memory Run FileOps

/-! ## The code -/

/-- What the driver throws, and the exceptions of the file. -/
inductive Exception
  | outOfRange (what : String)
  | runtimeError (what : String)
  | file (e : Error)
  deriving DecidableEq, Repr

/-- `HD44780_ToFileBase`. The mapping shows the bytes of the file; the cursor counts from
`mapped_ptr` on. -/
structure Display where
  rows : UInt8
  rowSize : UInt8
  outputFile : File
  cursorPos : Nat
  deriving DecidableEq, Repr

/-- `fill_byte` in `Clear`. -/
def fillByte : UInt8 := 32

/-- `newline` in `Clear`. -/
def newline : List UInt8 := [0, 13, 10, 0]

/-- The largest result of `vsnprintf`. -/
def intMax : Nat := 2147483647

/-- `output_file->Write(data, size)`, for what comes after it. -/
def writeFile (f : File) (data : List UInt8) : Except Exception File :=
  match f.write data with
  | (.error e, _) => .error (.file e)
  | (.ok (), f) => .ok f

/-- The loop of `Clear` over the characters of a row. -/
def fillRow : Nat → File → Except Exception File
  | 0, f => .ok f
  | j + 1, f => do
    let f ← writeFile f [fillByte]
    fillRow j f

/-- The loop of `Clear` over the rows. -/
def fillRows (rowSize : Nat) : Nat → File → Except Exception File
  | 0, f => .ok f
  | i + 1, f => do
    let f ← fillRow rowSize f
    let f ← writeFile f newline
    fillRows rowSize i f

/-- `vsnprintf(s, size, …)` of a format that makes `text`. -/
def vsnprintf (m : Mem) (s size : Nat) (text : List UInt8) : Option Mem :=
  store m s (text.take (size - 1) ++ [0])

namespace Display

/-- The bytes of the file. -/
def content (d : Display) : List UInt8 := d.outputFile.fd.content

/-- The display, with other bytes in the file. -/
def withContent (d : Display) (content : List UInt8) : Display :=
  { d with outputFile := { d.outputFile with fd := { d.outputFile.fd with content } } }

def clear (d : Display) : Except Exception Display :=
  match d.outputFile.seek 0 .set with
  | (.error e, _) => .error (.file e)
  | (.ok (), f) => do
    let f ← fillRows d.rowSize.toNat d.rows.toNat f
    .ok { d with outputFile := f, cursorPos := 0 }

/-- The constructor and `Init`, for a file with the bytes `content`; `mmap` refuses an empty
file with `EINVAL`. -/
def init (rows rowSize : UInt8) (content : List UInt8) : Except Exception Display := do
  let d : Display := ⟨rows, rowSize, openReadWrite content, 0⟩
  let expectedSize := rows.toNat * (rowSize.toNat + 3)
  let d ← if content.length < expectedSize then d.clear else .ok d
  if d.content.length = 0 then .error (.file (.systemError 22))
  else .ok { d with cursorPos := 0 }

def setCursorPos (d : Display) (row col : UInt8) : Except Exception Display :=
  if row > d.rows ∨ col > d.rowSize then .error (.outOfRange "Cursor position out of range")
  else .ok { d with cursorPos := row.toNat * (d.rowSize.toNat + 3) + col.toNat }

/-- `Print` of a format that makes `text`; `none` outside of the file. -/
def print (d : Display) (text : List UInt8) : Option (Except Exception Nat × Display) := do
  let content ← vsnprintf d.content d.cursorPos (d.rowSize.toNat + 1) text
  let d := d.withContent content
  -- `vsnprintf` can not tell the length
  if intMax < text.length then some (.error (.runtimeError "Error formatting string"), d)
  else some (.ok text.length, { d with cursorPos := d.cursorPos + text.length })

end Display

/-! ## Rows -/

/-- A position and the text that is printed there. -/
structure Call where
  row : UInt8
  col : UInt8
  text : List UInt8
  deriving DecidableEq, Repr

/-- What `Clear` writes for each row, in bytes. -/
def stride (rowSize : UInt8) : Nat := rowSize.toNat + newline.length

/-- The bytes of a row. -/
def rowLayout (rowSize : Nat) : List UInt8 := List.replicate rowSize fillByte ++ newline

/-- The bytes of all rows. -/
def layout (rows rowSize : Nat) : List UInt8 :=
  (List.replicate rows (rowLayout rowSize)).flatten

namespace Display

/-- `SetCursorPos` does not throw. -/
def Accepts (d : Display) (c : Call) : Prop := ∃ d', d.setCursorPos c.row c.col = .ok d'

/-- `SetCursorPos`, and `Print` unless it throws. -/
def step (d : Display) (c : Call) : Option (Except Exception Nat × Display) :=
  match d.setCursorPos c.row c.col with
  | .error e => some (.error e, d)
  | .ok d => d.print c.text

/-- With other bytes in the file the call would change byte `i`, if it does not here. -/
def Touches (d : Display) (c : Call) (i : Nat) : Prop :=
  ∃ content, content.length = d.content.length ∧
    ∃ r d', (d.withContent content).step c = some (r, d') ∧ d'.content[i]? ≠ content[i]?

/-- The characters of a row and its terminator. -/
def InRow (d : Display) (row : UInt8) (i : Nat) : Prop :=
  row.toNat * stride d.rowSize ≤ i ∧ i ≤ row.toNat * stride d.rowSize + d.rowSize.toNat

/-- The call prints in the file, and touches no byte but those of its row. -/
structure KeepsRow (d : Display) (c : Call) : Prop where
  prints : ∃ r d', d.step c = some (r, d')
  touches : ∀ i, d.Touches c i → d.InRow c.row i ∧ i < d.rows.toNat * stride d.rowSize

/-- The row is one of the display, the column makes up for the bytes that the cursor does not
count, and what is left of the text after the cut ends in the row. -/
def Fits (d : Display) (c : Call) : Prop :=
  c.row < d.rows ∧ c.row ≤ c.col ∧
    c.col.toNat + min c.text.length d.rowSize.toNat ≤ c.row.toNat + d.rowSize.toNat

instance (d : Display) (c : Call) : Decidable (d.Fits c) := inferInstanceAs (Decidable (_ ∧ _))

end Display

variable {d d₀ d' : Display} {c : Call} {f f' : File} {old w data : List UInt8} {i n : Nat}

/-! ## What `Clear` leaves -/

theorem bind_eq_ok {α β : Type} {x : Except Exception α} {f : α → Except Exception β} {b : β} :
    x >>= f = .ok b ↔ ∃ a, x = .ok a ∧ f a = .ok b := by
  cases x with
  | error e =>
    constructor
    · intro h
      cases h
    · rintro ⟨a, h, -⟩
      cases h
  | ok a =>
    refine ⟨fun h => ⟨a, rfl, h⟩, fun ⟨_, h, hf⟩ => ?_⟩
    cases h
    exact hf

theorem length_rowLayout (rowSize : UInt8) :
    (rowLayout rowSize.toNat).length = stride rowSize := by
  rw [rowLayout, List.length_append, List.length_replicate, stride]

theorem length_layout (rows : Nat) (rowSize : UInt8) :
    (layout rows rowSize.toNat).length = rows * stride rowSize := by
  rw [layout, List.length_flatten, List.map_replicate, List.sum_replicate_nat, length_rowLayout]

/-- The bytes `w` have been written over the bytes `old`. -/
def Written (old w : List UInt8) (f : File) : Prop := f.fd = ⟨w ++ old.drop w.length, w.length⟩

theorem written_of_writeFile (hf : Written old w f) (h : writeFile f data = .ok f') :
    Written old (w ++ data) f' := by
  have hfd : f'.fd = (f.fd.write data).2 := by
    unfold writeFile File.write at h
    split at h
    · cases h
    · rename_i heq
      split at heq
      · cases heq
      · dsimp only at heq
        split at heq
        · cases heq
        · cases heq
          cases h
          rfl
  rw [Written, hfd, hf, Descriptor.write]
  by_cases hdata : data = []
  · rw [if_pos hdata, hdata, List.append_nil]
  · rw [if_neg hdata, List.length_append, ← List.drop_drop]
    simp

theorem written_of_fillRow (hf : Written old w f) (h : fillRow n f = .ok f') :
    Written old (w ++ List.replicate n fillByte) f' := by
  induction n generalizing w f with
  | zero =>
    cases h
    rwa [List.replicate_zero, List.append_nil]
  | succ n ih =>
    obtain ⟨f₁, hbyte, hrest⟩ := bind_eq_ok.mp h
    have hend := ih (written_of_writeFile hf hbyte) hrest
    rwa [List.append_assoc] at hend

theorem written_of_fillRows {rowSize : Nat} (hf : Written old w f)
    (h : fillRows rowSize n f = .ok f') : Written old (w ++ layout n rowSize) f' := by
  induction n generalizing w f with
  | zero =>
    cases h
    rwa [layout, List.replicate_zero, List.flatten_nil, List.append_nil]
  | succ n ih =>
    obtain ⟨f₁, hrow, htail⟩ := bind_eq_ok.mp h
    obtain ⟨f₂, hline, hrest⟩ := bind_eq_ok.mp htail
    have hend := ih (written_of_writeFile (written_of_fillRow hf hrow) hline) hrest
    rwa [List.append_assoc w, ← rowLayout, List.append_assoc] at hend

/-- What `Clear` writes; the file keeps what it had behind. -/
theorem clear_ok (h : d.clear = .ok d') :
    d'.rows = d.rows ∧ d'.rowSize = d.rowSize ∧ d'.cursorPos = 0 ∧
      d'.content = layout d.rows.toNat d.rowSize.toNat ++
        d.content.drop (d.rows.toNat * stride d.rowSize) := by
  rw [Display.clear, File.seek, Descriptor.lseek_set] at h
  dsimp only at h
  obtain ⟨f, hrows, hend⟩ := bind_eq_ok.mp h
  cases hend
  have hstart : Written d.content []
      { d.outputFile with fd := { d.outputFile.fd with offset := 0 } } := rfl
  have hwritten := written_of_fillRows hstart hrows
  rw [List.nil_append, Written, length_layout] at hwritten
  exact ⟨rfl, rfl, rfl, congrArg Descriptor.content hwritten⟩

theorem le_length_of_clear (h : d.clear = .ok d') :
    d'.rows.toNat * stride d'.rowSize ≤ d'.content.length := by
  obtain ⟨hrows, hsize, -, hcontent⟩ := clear_ok h
  rw [hcontent, List.length_append, length_layout, hrows, hsize]
  exact Nat.le_add_right _ _

/-- `Init` of a file that is too short is `Clear`. -/
theorem init_of_short {rows rowSize : UInt8} {content : List UInt8}
    (h : content.length < rows.toNat * (rowSize.toNat + 3)) :
    Display.init rows rowSize content =
      Display.clear ⟨rows, rowSize, openReadWrite content, 0⟩ := by
  unfold Display.init
  dsimp only
  rw [if_pos h]
  cases hclear : Display.clear ⟨rows, rowSize, openReadWrite content, 0⟩ with
  | error e => rfl
  | ok d =>
    obtain ⟨hrows, hsize, hcursor, -⟩ := clear_ok hclear
    have hlen := le_length_of_clear hclear
    have hpos : 0 < rows.toNat := Nat.pos_of_mul_pos_right (Nat.zero_lt_of_lt h)
    have hcontent : d.content.length ≠ 0 := by
      rw [hrows, hsize, stride] at hlen
      have := Nat.mul_pos hpos (show 0 < rowSize.toNat + newline.length from Nat.succ_pos _)
      dsimp only at hlen
      omega
    show (if d.content.length = 0 then _ else _ : Except Exception Display) = _
    rw [if_neg hcontent, ← hcursor]

/-! ## What a print touches -/

/-- Where `SetCursorPos` puts the cursor. -/
def cursor (d : Display) (c : Call) : Nat := c.row.toNat * (d.rowSize.toNat + 3) + c.col.toNat

/-- What `vsnprintf` writes. -/
def printed (d : Display) (c : Call) : List UInt8 := c.text.take d.rowSize.toNat ++ [0]

theorem length_printed (d : Display) (c : Call) :
    (printed d c).length = min c.text.length d.rowSize.toNat + 1 := by
  rw [printed, List.length_append, List.length_take, Nat.min_comm]
  rfl

theorem accepts_iff : d.Accepts c ↔ c.row ≤ d.rows ∧ c.col ≤ d.rowSize := by
  unfold Display.Accepts Display.setCursorPos
  split
  · rename_i h
    refine iff_of_false (fun ⟨_, hok⟩ => by cases hok) fun ⟨hrow, hcol⟩ => ?_
    exact h.elim (fun h => UInt8.not_lt.mpr hrow h) fun h => UInt8.not_lt.mpr hcol h
  · rename_i h
    rw [not_or, UInt8.not_lt, UInt8.not_lt] at h
    exact iff_of_true ⟨_, rfl⟩ h

/-- What a call that does not throw does, whatever the bytes of the file are. -/
theorem step_accepted (h : d.Accepts c) : ∃ result cursorPos, ∀ content,
    (d.withContent content).step c =
      (store content (cursor d c) (printed d c)).map fun content =>
        (result, { d.withContent content with cursorPos }) := by
  obtain ⟨hrow, hcol⟩ := accepts_iff.mp h
  have hset (content : List UInt8) : (d.withContent content).setCursorPos c.row c.col =
      .ok { d.withContent content with cursorPos := cursor d c } :=
    if_neg (not_or.mpr ⟨UInt8.not_lt.mpr hrow, UInt8.not_lt.mpr hcol⟩)
  by_cases hmax : intMax < c.text.length
  · refine ⟨.error (.runtimeError "Error formatting string"), cursor d c, fun content => ?_⟩
    rw [Display.step, hset]
    show (store content (cursor d c) (printed d c)).bind _ = _
    cases store content (cursor d c) (printed d c) with
    | none => rfl
    | some m => exact if_pos hmax
  · refine ⟨.ok c.text.length, cursor d c + c.text.length, fun content => ?_⟩
    rw [Display.step, hset]
    show (store content (cursor d c) (printed d c)).bind _ = _
    cases store content (cursor d c) (printed d c) with
    | none => rfl
    | some m => exact if_neg hmax

theorem prints_iff (h : d.Accepts c) : (∃ r d', d.step c = some (r, d')) ↔
    cursor d c + (printed d c).length ≤ d.content.length := by
  obtain ⟨result, cursorPos, hstep⟩ := step_accepted h
  have hown : d.step c = _ := hstep d.content
  rw [hown]
  constructor
  · rintro ⟨r, d', heq⟩
    obtain ⟨m, hm, -⟩ := Option.map_eq_some_iff.mp heq
    exact store_bound hm
  · intro hfit
    obtain ⟨m, hm⟩ := store_exists d.content (cursor d c) (printed d c) hfit
    exact ⟨result, _, by rw [hm, Option.map_some]⟩

/-- The bytes from the cursor on, as many as are printed. -/
theorem touches_iff (h : d.Accepts c)
    (hfit : cursor d c + (printed d c).length ≤ d.content.length) :
    d.Touches c i ↔ cursor d c ≤ i ∧ i < cursor d c + (printed d c).length := by
  obtain ⟨result, cursorPos, hstep⟩ := step_accepted h
  constructor
  · rintro ⟨content, -, r, d', heq, hne⟩
    rw [hstep] at heq
    obtain ⟨m, hm, hd'⟩ := Option.map_eq_some_iff.mp heq
    cases hd'
    by_contra hout
    refine hne ?_
    show m[i]? = content[i]?
    rw [store_getElem? hm, if_neg hout]
  · rintro ⟨hlo, hhi⟩
    obtain ⟨b, hb⟩ : ∃ b, (printed d c)[i - cursor d c]? = some b :=
      ⟨_, List.getElem?_eq_getElem (by omega)⟩
    obtain ⟨b', hne⟩ : ∃ b', b' ≠ b := ⟨b + 1, by simp⟩
    have hlen : (d.content.set i b').length = d.content.length := List.length_set
    obtain ⟨m, hm⟩ := store_exists (d.content.set i b') (cursor d c) (printed d c)
      (by rw [hlen]; exact hfit)
    refine ⟨d.content.set i b', hlen, result, _, by rw [hstep, hm, Option.map_some], ?_⟩
    show m[i]? ≠ _
    rw [store_getElem? hm, if_pos ⟨hlo, hhi⟩, hb, List.getElem?_set_self (by omega)]
    exact fun heq => hne (Option.some.inj heq).symm

/-- A call keeps its row exactly if what it prints fits there. -/
theorem keepsRow_iff (h : d.Accepts c)
    (hlen : d.rows.toNat * stride d.rowSize ≤ d.content.length) : d.KeepsRow c ↔ d.Fits c := by
  have hpos : c.row.toNat * stride d.rowSize + c.col.toNat = cursor d c + c.row.toNat := by
    rw [cursor, show stride d.rowSize = d.rowSize.toNat + 3 + 1 from rfl, Nat.mul_succ]
    omega
  have hprinted := length_printed d c
  constructor
  · rintro ⟨hprints, htouches⟩
    have hfit := (prints_iff h).mp hprints
    obtain ⟨hfirst, hbelow⟩ := htouches _ ((touches_iff h hfit).mpr ⟨Nat.le_refl _, by omega⟩)
    obtain ⟨hlast, -⟩ := htouches (cursor d c + min c.text.length d.rowSize.toNat)
      ((touches_iff h hfit).mpr ⟨by omega, by omega⟩)
    have hrow : c.row.toNat < d.rows.toNat :=
      Nat.lt_of_mul_lt_mul_right (Nat.lt_of_le_of_lt hfirst.1 hbelow)
    have hcol := hfirst.1
    have hend := hlast.2
    refine ⟨UInt8.lt_iff_toNat_lt.mpr hrow, UInt8.le_iff_toNat_le.mpr (by omega), by omega⟩
  · rintro ⟨hrow, hcol, hend⟩
    have hrow := UInt8.lt_iff_toNat_lt.mp hrow
    have hcol := UInt8.le_iff_toNat_le.mp hcol
    have hnext : c.row.toNat * stride d.rowSize + stride d.rowSize ≤
        d.rows.toNat * stride d.rowSize := by
      rw [← Nat.succ_mul]
      exact Nat.mul_le_mul_right _ hrow
    have hstride : d.rowSize.toNat < stride d.rowSize := Nat.lt_add_of_pos_right (by decide)
    have hfit : cursor d c + (printed d c).length ≤ d.content.length := by omega
    refine ⟨(prints_iff h).mpr hfit, fun i hi => ?_⟩
    obtain ⟨hlo, hhi⟩ := (touches_iff h hfit).mp hi
    exact ⟨⟨by omega, by omega⟩, by omega⟩

/-- What a call that keeps its row leaves alone. -/
theorem getElem?_of_keepsRow (h : d.KeepsRow c) {r : Except Exception Nat}
    (hstep : d.step c = some (r, d')) (hi : ¬ d.InRow c.row i) :
    d'.content[i]? = d.content[i]? := by
  by_contra hne
  exact hi (h.touches i ⟨d.content, rfl, r, d', hstep, hne⟩).1

/-! ## Runs -/

/-- What no call changes: the geometry and the size of the file. -/
def SameFile (d d' : Display) : Prop :=
  d'.rows = d.rows ∧ d'.rowSize = d.rowSize ∧ d'.content.length = d.content.length

theorem sameFile_step (h : d.Accepts c) {r : Except Exception Nat}
    (hstep : d.step c = some (r, d')) : SameFile d d' := by
  obtain ⟨result, cursorPos, hcontent⟩ := step_accepted h
  have hown : d.step c = _ := hcontent d.content
  obtain ⟨m, hm, hd'⟩ := Option.map_eq_some_iff.mp (hown.symm.trans hstep)
  cases hd'
  exact ⟨rfl, rfl, store_length hm⟩

/-- **Rows are kept apart.** From what `Clear` leaves, in every run of positions that are not
refused and of prints, each call stays in its row and in the file exactly if each call fits. -/
theorem keepsRows_iff {calls : List Call} (hclear : d₀.clear = .ok d)
    (haccept : ∀ c ∈ calls, d.Accepts c) :
    AlongRun Display.step Display.KeepsRow d calls ↔ ∀ c ∈ calls, d.Fits c := by
  have hlen := le_length_of_clear hclear
  have hkeeps (s : Display) (c : Call) (hc : c ∈ calls) (hs : SameFile d s) :
      s.Accepts c ∧ (s.KeepsRow c ↔ d.Fits c) := by
    obtain ⟨hrows, hsize, hcontent⟩ := hs
    have hs : s.Accepts c := by
      rw [accepts_iff, hrows, hsize]
      exact accepts_iff.mp (haccept c hc)
    refine ⟨hs, ?_⟩
    rw [keepsRow_iff hs (by rw [hrows, hsize, hcontent]; exact hlen), Display.Fits,
      Display.Fits, hrows, hsize]
  refine alongRun_iff_forall (fun s c hc hs => (hkeeps s c hc hs).2) ?_ ⟨rfl, rfl, rfl⟩
  intro s c hc hs hfits
  obtain ⟨haccepts, hiff⟩ := hkeeps s c hc hs
  obtain ⟨r, s', hstep⟩ := (hiff.mpr hfits).prints
  obtain ⟨hrows, hsize, hlength⟩ := sameFile_step haccepts hstep
  exact ⟨r, s', hstep, hrows.trans hs.1, hsize.trans hs.2.1, hlength.trans hs.2.2⟩

/-- Two prints on the default display, the second from the second column of the second row on. -/
theorem keepsRows_default : ∃ d, Display.init 2 16 [] = .ok d ∧
    AlongRun Display.step Display.KeepsRow d
      [⟨0, 0, [72, 101, 108, 108, 111]⟩, ⟨1, 1, [84, 101, 115, 116]⟩] := by
  have hinit : Display.init 2 16 [] = _ := init_of_short (by decide)
  obtain ⟨d, hclear⟩ : ∃ d, Display.clear ⟨2, 16, openReadWrite [], 0⟩ = .ok d := ⟨_, rfl⟩
  obtain ⟨hrows, hsize, -⟩ := clear_ok hclear
  refine ⟨d, hinit.trans hclear, (keepsRows_iff hclear ?_).mpr ?_⟩
  · simp only [accepts_iff, hrows, hsize]
    decide
  · simp only [Display.Fits, hrows, hsize]
    decide

/-- Two rows of two characters, and `Hi` at the beginning of the second row: the `H` is on the
last of the four bytes behind the first row. -/
theorem print_second_row : ∃ d r d', Display.init 2 2 [] = .ok d ∧
    d.step ⟨1, 0, [72, 105]⟩ = some (r, d') ∧
    d.content = [32, 32, 0, 13, 10, 0, 32, 32, 0, 13, 10, 0] ∧
    d'.content = [32, 32, 0, 13, 10, 72, 105, 0, 0, 13, 10, 0] ∧
    ¬ AlongRun Display.step Display.KeepsRow d [⟨1, 0, [72, 105]⟩] := by
  obtain ⟨d, r, d', hinit, hstep, hbefore, hafter, hsize⟩ : ∃ d r d',
      Display.init 2 2 [] = .ok d ∧ d.step ⟨1, 0, [72, 105]⟩ = some (r, d') ∧
        d.content = [32, 32, 0, 13, 10, 0, 32, 32, 0, 13, 10, 0] ∧
        d'.content = [32, 32, 0, 13, 10, 72, 105, 0, 0, 13, 10, 0] ∧ d.rowSize = 2 :=
    ⟨_, _, _, rfl, rfl, rfl, rfl, rfl⟩
  have hrow : ¬ d.InRow 1 5 := by
    rw [Display.InRow, hsize]
    decide
  refine ⟨d, r, d', hinit, hstep, hbefore, hafter, fun h => ?_⟩
  have hsame := getElem?_of_keepsRow h.1 hstep hrow
  rw [hbefore, hafter] at hsame
  exact absurd hsame (by decide)

end MyLibraries.Hd44780.ToFile
