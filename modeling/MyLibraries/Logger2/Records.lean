import Mathlib.Data.List.Basic
import MyLibraries.Core.Run
import MyLibraries.Logger2.Model

/-!
# One record for each message

A message is accepted if it has the magic number and at least one byte of data. What is
written for it ends in a line break only where the data itself does: the question whether the
last byte is a newline adds a line break instead of sparing it (`step_accepted`). The file is
opened without a move to its end, so the first records overwrite what it held before. These
are the two things that a message depends on, and the output of a string without an end is the
third (`oneRecord_iff`).
-/

namespace MyLibraries.Logger2

open FileOps Run

/-- The message is at least 5 bytes long and has the right magic number. -/
structure Accepted (magicNumber : BitVec 32) (m : Message) : Prop where
  size : 5 ≤ m.payload.length
  magic : magicOf (fun i => m.payload.getD i 0) = magicNumber

/-- The time, the data of the message and a line break at the end, be it that of the data. -/
structure IsRecord (m : Message) (record : List UInt8) : Prop where
  parts : ∃ tail ∈ [[], [lf], lineBreak],
    record = m.timestamp ++ separator ++ m.payload.drop 4 ++ tail
  ended : record.getLast? = some lf

/-- The log grows by one record for a message that is accepted, and by nothing for another. -/
def OneRecord (s : LoggerServer) (m : Message) : Prop :=
  ∃ r s', step s m = some (r, s') ∧
    (Accepted s.magicNumber m →
      ∃ record, IsRecord m record ∧ s'.log.content = s.log.content ++ record) ∧
    (¬ Accepted s.magicNumber m → s'.log.content = s.log.content)

/-- What a message that is accepted has to find, and to be like; and a message that is taken
for one with the magic number has to find the end of a string in the buffer. -/
structure Fits (s : LoggerServer) (m : Message) : Prop where
  printed : magicOf (receive s.buffer m.payload) = s.magicNumber →
    ¬ Endless (receive s.buffer m.payload)
  atEnd : Accepted s.magicNumber m → s.log.offset = s.log.content.length
  newline : Accepted s.magicNumber m → m.payload.getLast? = some lf

variable {s s' : LoggerServer} {m : Message} {d : Descriptor}

/-! ## Writing -/

theorem write_eq (d : Descriptor) {data : List UInt8} (h : data ≠ []) :
    (d.write data).2 =
      { content := d.content.take d.offset ++
          List.replicate (d.offset - d.content.length) 0 ++ data ++
          d.content.drop (d.offset + data.length)
        offset := d.offset + data.length } := by
  rw [Descriptor.write, if_neg h]

theorem write_count (d : Descriptor) (data : List UInt8) : (d.write data).1 = data.length := by
  rw [Descriptor.write]
  split
  · rename_i hnil
    rw [hnil, List.length_nil]
  · rfl

theorem fileWrite_eq (d : Descriptor) (data : List UInt8) :
    File.write ⟨.writeOnly, d⟩ data = (.ok (), ⟨.writeOnly, (d.write data).2⟩) := by
  have hopen : ¬ OpenFlags.writeOnly = .readOnly := by decide
  rw [File.write]
  dsimp only
  rw [if_neg hopen, if_neg (not_not.mpr (write_count d data))]

/-- What is written in two parts is written in one. -/
theorem write_append (d : Descriptor) (a b : List UInt8) :
    ((d.write a).2.write b).2 = (d.write (a ++ b)).2 := by
  by_cases ha : a = []
  · subst ha
    rfl
  · by_cases hb : b = []
    · subst hb
      rw [List.append_nil]
      rfl
    · have hab : a ++ b ≠ [] := fun h => ha (List.append_eq_nil_iff.mp h).1
      have hstart : (d.content.take d.offset ++
          List.replicate (d.offset - d.content.length) 0).length = d.offset := by
        rw [List.length_append, List.length_take, List.length_replicate]
        omega
      have hfront : (d.content.take d.offset ++
          List.replicate (d.offset - d.content.length) 0 ++ a).length = d.offset + a.length := by
        rw [List.length_append, hstart]
      rw [write_eq _ hb, write_eq _ ha, write_eq _ hab, ← List.append_assoc]
      dsimp only
      generalize d.content.take d.offset ++ List.replicate (d.offset - d.content.length) 0 ++ a =
        front at hfront
      have hhole : d.offset + a.length -
          (front ++ d.content.drop (d.offset + a.length)).length = 0 := by
        rw [List.length_append, hfront]
        omega
      have hskip : front.drop (d.offset + a.length + b.length) = [] :=
        List.drop_eq_nil_of_le (by omega)
      rw [hhole, List.take_left' hfront, List.drop_append, hskip, List.drop_drop, hfront,
        Nat.add_sub_cancel_left, List.length_append, Nat.add_assoc]
      simp

theorem writes_eq (d : Descriptor) (parts : List (List UInt8)) :
    writes ⟨.writeOnly, d⟩ parts = (.ok (), ⟨.writeOnly, (d.write parts.flatten).2⟩) := by
  induction parts generalizing d with
  | nil => rfl
  | cons data parts ih =>
      rw [writes, fileWrite_eq, List.flatten_cons, ← write_append]
      exact ih _

/-! ## Growing -/

/-- A word that moves on over itself repeats what it moves onto. -/
theorem mem_of_shifted {α : Type} {w t x t' : List α} (h : w ++ t = x ++ w ++ t') (hx : x ≠ [])
    {a : α} (ha : a ∈ w) : a ∈ t := by
  have hpos : 0 < x.length := List.length_pos_iff.mpr hx
  suffices hall : ∀ n i, w.length - i ≤ n → ∀ a, w[i]? = some a → a ∈ t by
    obtain ⟨i, hi⟩ := List.mem_iff_getElem?.mp ha
    exact hall _ i (Nat.le_refl _) a hi
  intro n
  induction n with
  | zero =>
      intro i hle a hi
      obtain ⟨hlt, -⟩ := List.getElem?_eq_some_iff.mp hi
      omega
  | succ n ih =>
      intro i hle a hi
      obtain ⟨hlt, -⟩ := List.getElem?_eq_some_iff.mp hi
      have hmoved : (w ++ t)[x.length + i]? = some a := by
        rw [h, List.append_assoc, List.getElem?_append_right (Nat.le_add_right _ _),
          Nat.add_sub_cancel_left, List.getElem?_append_left hlt, hi]
      by_cases hin : x.length + i < w.length
      · rw [List.getElem?_append_left hin] at hmoved
        exact ih _ (by omega) a hmoved
      · rw [List.getElem?_append_right (by omega)] at hmoved
        exact List.mem_of_getElem? hmoved

/-- Inside of a file a text would have to begin with what it overwrites. -/
theorem overwrites {front x w t t' : List UInt8} (hx : x ≠ []) (hw : w ≠ [])
    (h : (⟨front ++ x, front.length⟩ : Descriptor).write (w ++ t) |>.2.content =
      front ++ x ++ (w ++ t')) : w ++ t = x ++ w ++ t' := by
  have hne : w ++ t ≠ [] := fun hnil => hw (List.append_eq_nil_iff.mp hnil).1
  have hhole : front.length - (front ++ x).length = 0 := by
    rw [List.length_append]
    omega
  rw [write_eq _ hne] at h
  dsimp only at h
  rw [List.take_left, hhole, List.replicate_zero, List.append_nil, List.append_assoc,
    List.append_assoc front x, List.append_cancel_left_eq, List.drop_append,
    List.drop_eq_nil_of_le (Nat.le_add_right _ _), List.nil_append, Nat.add_sub_cancel_left] at h
  -- Nothing is left of the old contents, for the file has become longer.
  have hlen := congrArg List.length h
  have hpos := List.length_pos_iff.mpr hw
  have hxpos := List.length_pos_iff.mpr hx
  simp only [List.length_append, List.length_drop] at hlen
  rwa [List.drop_eq_nil_of_le (by rw [List.length_append]; omega), List.append_nil,
    ← List.append_assoc] at h

/-- A text and its end grow a file only at the end of that, if the text has a byte that no end
has. -/
theorem write_grows_iff {w t t' : List UInt8} {a : UInt8} (ha : a ∈ w) (ht : a ∉ t)
    (ht' : a ∉ t') : (d.write (w ++ t)).2.content = d.content ++ (w ++ t') ↔
      d.offset = d.content.length ∧ t = t' := by
  have hne : w ++ t ≠ [] := List.ne_nil_of_mem (List.mem_append_left t ha)
  obtain ⟨c, o⟩ := d
  constructor
  · intro h
    rcases Nat.lt_trichotomy o c.length with hlt | rfl | hgt
    · obtain ⟨front, x, rfl, rfl⟩ : ∃ front x, front ++ x = c ∧ front.length = o :=
        ⟨c.take o, c.drop o, List.take_append_drop o c, List.length_take_of_le (Nat.le_of_lt hlt)⟩
      rw [List.length_append] at hlt
      have hx : x ≠ [] := List.ne_nil_of_length_pos (by omega)
      exact absurd (mem_of_shifted (overwrites hx (List.ne_nil_of_mem ha) h) hx ha) ht
    · refine ⟨rfl, ?_⟩
      rw [write_eq _ hne] at h
      dsimp only at h
      rw [List.drop_eq_nil_of_le (Nat.le_add_right _ _)] at h
      simpa using h
    · -- Behind the file, the text would have to begin with zeros.
      rw [write_eq _ hne] at h
      dsimp only at h
      rw [List.take_of_length_le (Nat.le_of_lt hgt), List.drop_eq_nil_of_le (by omega),
        List.append_nil, List.append_assoc, List.append_cancel_left_eq, ← List.append_assoc] at h
      have hx : List.replicate (o - c.length) (0 : UInt8) ≠ [] :=
        List.ne_nil_of_length_pos (by rw [List.length_replicate]; omega)
      exact absurd (mem_of_shifted h.symm hx ha) ht'
  · rintro ⟨hend, rfl⟩
    rw [write_eq _ hne, hend]
    simp

/-! ## One message -/

theorem getD_receive (buffer : Buffer) {payload : List UInt8} {i : Nat} (hi : i < payload.length) :
    receive buffer payload i = payload.getD i 0 := by
  rw [receive, List.getD_eq_getElem?_getD, List.getD_eq_getElem?_getD,
    List.getElem?_eq_getElem hi]
  rfl

/-- The magic number of a message that has one. -/
theorem magicOf_receive (buffer : Buffer) {payload : List UInt8} (h : 4 ≤ payload.length) :
    magicOf (receive buffer payload) = magicOf fun i => payload.getD i 0 := by
  rw [magicOf, magicOf, getD_receive buffer (by omega), getD_receive buffer (by omega),
    getD_receive buffer (by omega), getD_receive buffer (by omega)]

theorem Accepted.magic_receive (h : Accepted s.magicNumber m) :
    magicOf (receive s.buffer m.payload) = s.magicNumber := by
  have hlen := h.size
  rw [magicOf_receive s.buffer (by omega), h.magic]

/-- The data of a message. -/
theorem data_receive (buffer : Buffer) (payload : List UInt8) :
    ((List.range (payload.length - 4)).map fun i => receive buffer payload (4 + i)) =
      payload.drop 4 := by
  apply List.ext_getElem?
  intro i
  rw [List.getElem?_map, List.getElem?_drop]
  by_cases hi : i < payload.length - 4
  · rw [List.getElem?_range hi, Option.map_some, getD_receive buffer (by omega),
      List.getD_eq_getElem?_getD, List.getElem?_eq_getElem (by omega)]
    rfl
  · rw [List.getElem?_eq_none (by rw [List.length_range]; omega),
      List.getElem?_eq_none (by omega)]
    rfl

/-- The last byte of a message. -/
theorem last_receive (buffer : Buffer) {payload : List UInt8} (h : 5 ≤ payload.length) :
    receive buffer payload (4 + (payload.length - 4 - 1)) = lf ↔ payload.getLast? = some lf := by
  have hlast : 4 + (payload.length - 4 - 1) = payload.length - 1 := by omega
  rw [hlast, getD_receive buffer (by omega), List.getLast?_eq_getElem?,
    List.getD_eq_getElem?_getD, List.getElem?_eq_getElem (by omega), Option.getD_some,
    Option.some_inj]

/-- The part of a record that does not depend on its end. -/
def body (m : Message) : List UInt8 := m.timestamp ++ separator ++ m.payload.drop 4

/-- What is added to it. -/
def tailOf (m : Message) : List UInt8 := if m.payload.getLast? = some lf then lineBreak else []

/-- A message that is not accepted leaves the log alone, if there is nothing wrong with what
is printed of it. -/
theorem step_other
    (hprint : magicOf (receive s.buffer m.payload) = s.magicNumber →
      ¬ Endless (receive s.buffer m.payload)) (h : ¬ Accepted s.magicNumber m) :
    step s m = some (.ok none, { s with buffer := receive s.buffer m.payload }) := by
  rw [step, onReceive]
  by_cases hmagic : magicOf (receive s.buffer m.payload) = s.magicNumber
  · have hshort : m.payload.length < 5 := by
      by_contra hlong
      refine h ⟨by omega, ?_⟩
      rw [← magicOf_receive s.buffer (by omega), hmagic]
    rw [if_neg (not_not.mpr hmagic), if_neg (hprint hmagic), if_pos hshort]
  · rw [if_pos hmagic]

/-- What is written for a message that is accepted. -/
theorem step_accepted (h : Accepted s.magicNumber m)
    (hprint : ¬ Endless (receive s.buffer m.payload)) :
    step s m = some (.ok (if s.protocol = .tcp then s.replyMessage else none),
      { s with
        log := (s.log.write (body m ++ tailOf m)).2
        buffer := receive s.buffer m.payload }) := by
  have hbody : [m.timestamp, separator, m.payload.drop 4].flatten = body m := by
    simp [body]
  rw [step, onReceive, if_neg (not_not.mpr h.magic_receive), if_neg hprint,
    if_neg (Nat.not_lt.mpr h.size)]
  dsimp only
  rw [data_receive, LoggerServer.logFile, writes_eq, hbody, ← write_append, tailOf]
  dsimp only
  by_cases hlast : m.payload.getLast? = some lf
  · rw [if_pos ((last_receive s.buffer h.size).mpr hlast), fileWrite_eq, if_pos hlast]
  · rw [if_neg (mt (last_receive s.buffer h.size).mp hlast), if_neg hlast]
    rfl

theorem getLast?_body (h : 5 ≤ m.payload.length) : (body m).getLast? = m.payload.getLast? := by
  have hdata : (m.payload.drop 4).getLast? = m.payload.getLast? := by
    rw [List.getLast?_drop, if_neg (by omega)]
  have hsome : ∃ c, m.payload.getLast? = some c := by
    rw [← Option.isSome_iff_exists, List.getLast?_isSome]
    exact List.ne_nil_of_length_pos (by omega)
  obtain ⟨c, hc⟩ := hsome
  rw [body, List.getLast?_append, hdata, hc]
  rfl

/-- No end of a record has the colon. -/
theorem colon_not_mem {tail : List UInt8} (h : tail ∈ [[], [lf], lineBreak]) : 58 ∉ tail := by
  revert tail
  decide

theorem tailOf_mem (m : Message) : tailOf m ∈ [[], [lf], lineBreak] := by
  rw [tailOf]
  split
  · simp
  · simp

theorem colon_mem (m : Message) : 58 ∈ body m := by
  rw [body, separator]
  simp

theorem oneRecord_iff (s : LoggerServer) (m : Message) : OneRecord s m ↔ Fits s m := by
  constructor
  · rintro ⟨r, s', hstep, hrecord, -⟩
    have hprint : magicOf (receive s.buffer m.payload) = s.magicNumber →
        ¬ Endless (receive s.buffer m.payload) := by
      intro hmagic hendless
      rw [step, onReceive, if_neg (not_not.mpr hmagic), if_pos hendless] at hstep
      exact nomatch hstep
    have haccepted : Accepted s.magicNumber m →
        s.log.offset = s.log.content.length ∧ m.payload.getLast? = some lf := by
      intro h
      rw [step_accepted h (hprint h.magic_receive)] at hstep
      cases hstep
      obtain ⟨record, ⟨⟨tail, htail, rfl⟩, hended⟩, hgrown⟩ := hrecord h
      obtain ⟨hend, hsame⟩ := (write_grows_iff (colon_mem m) (colon_not_mem (tailOf_mem m))
        (colon_not_mem htail)).mp hgrown
      refine ⟨hend, ?_⟩
      by_contra hlast
      have hnone : tail = [] := by rw [← hsame, tailOf, if_neg hlast]
      rw [hnone, List.append_nil] at hended
      exact hlast ((getLast?_body h.size).symm.trans hended)
    exact ⟨hprint, fun h => (haccepted h).1, fun h => (haccepted h).2⟩
  · intro hfits
    by_cases h : Accepted s.magicNumber m
    · have htail : tailOf m = lineBreak := if_pos (hfits.newline h)
      refine ⟨_, _, step_accepted h (hfits.printed h.magic_receive), fun _ => ?_, absurd h⟩
      refine ⟨body m ++ tailOf m, ⟨⟨tailOf m, tailOf_mem m, rfl⟩, ?_⟩, ?_⟩
      · rw [htail, List.getLast?_append]
        rfl
      · exact (write_grows_iff (colon_mem m) (colon_not_mem (tailOf_mem m))
          (colon_not_mem (tailOf_mem m))).mpr ⟨hfits.atEnd h, rfl⟩
    · exact ⟨_, _, step_other hfits.printed h, fun hacc => absurd hacc h, fun _ => rfl⟩

/-! ## Runs -/

instance (magicNumber : BitVec 32) : DecidablePred (Accepted magicNumber) := fun m =>
  decidable_of_iff (5 ≤ m.payload.length ∧ magicOf (fun i => m.payload.getD i 0) = magicNumber)
    ⟨fun h => ⟨h.1, h.2⟩, fun h => ⟨h.size, h.magic⟩⟩

/-- The log has grown by one record for each message that was accepted. -/
def Logged (s : LoggerServer) (ms : List Message) (s' : LoggerServer) : Prop :=
  ∃ records, List.Forall₂ IsRecord (ms.filter fun m => Accepted s.magicNumber m) records ∧
    s'.log.content = s.log.content ++ records.flatten

theorem step_magicNumber {r : Except Error (Option (List UInt8))} (hfits : Fits s m)
    (h : step s m = some (r, s')) : s'.magicNumber = s.magicNumber := by
  by_cases hacc : Accepted s.magicNumber m
  · rw [step_accepted hacc (hfits.printed hacc.magic_receive)] at h
    cases h
    rfl
  · rw [step_other hfits.printed hacc] at h
    cases h
    rfl

/-- What the single messages leave makes up the file. -/
theorem logged_of_alongRun {ms : List Message} (h : AlongRun step Fits s ms) :
    ∃ rs s', run step s ms = some (rs, s') ∧ Logged s ms s' := by
  induction ms generalizing s with
  | nil => exact ⟨[], s, rfl, [], .nil, (List.append_nil _).symm⟩
  | cons m ms ih =>
      obtain ⟨r, s₁, h₁, hrecord, hother⟩ := (oneRecord_iff s m).mpr h.1
      obtain ⟨rs, s', hrun, records, hall, hcontent⟩ := ih (h.2 r s₁ h₁)
      have hmagic := step_magicNumber h.1 h₁
      refine ⟨r :: rs, s', ?_, ?_⟩
      · rw [run_cons, h₁, Option.bind_some, hrun, Option.bind_some]
      · rw [hmagic] at hall
        by_cases hacc : Accepted s.magicNumber m
        · obtain ⟨record, hmine, hgrown⟩ := hrecord hacc
          refine ⟨record :: records, ?_, ?_⟩
          · rw [List.filter_cons, if_pos (decide_eq_true hacc)]
            exact .cons hmine hall
          · rw [hcontent, hgrown, List.flatten_cons, List.append_assoc]
        · refine ⟨records, ?_, ?_⟩
          · rw [List.filter_cons, if_neg (by simpa using hacc)]
            exact hall
          · rw [hcontent, hother hacc]

/-- **When the log grows by one record for each message.** -/
theorem one_record_iff (s : LoggerServer) (ms : List Message) :
    (AlongRun step OneRecord s ms ↔ AlongRun step Fits s ms) ∧
      (AlongRun step Fits s ms → ∃ rs s', run step s ms = some (rs, s') ∧ Logged s ms s') := by
  have hsame : OneRecord = Fits := funext fun s => funext fun m => propext (oneRecord_iff s m)
  exact ⟨by rw [hsame], logged_of_alongRun⟩

/-! ## Short messages -/

/-- The log is at its end, and a string in the buffer ends in its last byte at the latest. -/
structure Sound (s : LoggerServer) : Prop where
  atEnd : s.log.offset = s.log.content.length
  last : s.buffer (maxMessageSize - 1) = 0

/-- The message leaves the last byte of the buffer alone and ends in a newline. -/
structure Plain (m : Message) : Prop where
  short : m.payload.length < maxMessageSize
  newline : m.payload.getLast? = some lf

theorem receive_last (buffer : Buffer) (hm : Plain m) :
    receive buffer m.payload (maxMessageSize - 1) = buffer (maxMessageSize - 1) := by
  have hshort : m.payload.length ≤ maxMessageSize - 1 := Nat.le_sub_one_of_lt hm.short
  rw [receive, List.getD_eq_getElem?_getD, List.getElem?_eq_none hshort, Option.getD_none]

theorem fits_of_plain (hs : Sound s) (hm : Plain m) : Fits s m := by
  refine ⟨fun _ hendless => ?_, fun _ => hs.atEnd, fun _ => hm.newline⟩
  have hlast := hendless (maxMessageSize - 4 - 1) (List.mem_range.mpr (by decide))
  have hplace : 4 + (maxMessageSize - 4 - 1) = maxMessageSize - 1 := rfl
  rw [hplace, receive_last s.buffer hm, hs.last] at hlast
  exact hlast rfl

theorem step_sound {r : Except Error (Option (List UInt8))} (hs : Sound s) (hm : Plain m)
    (h : step s m = some (r, s')) : Sound s' := by
  have hfits := fits_of_plain hs hm
  by_cases hacc : Accepted s.magicNumber m
  · rw [step_accepted hacc (hfits.printed hacc.magic_receive)] at h
    cases h
    refine ⟨?_, (receive_last s.buffer hm).trans hs.last⟩
    have hne : body m ++ tailOf m ≠ [] :=
      List.ne_nil_of_mem (List.mem_append_left _ (colon_mem m))
    rw [write_eq _ hne, hs.atEnd]
    simp
  · rw [step_other hfits.printed hacc] at h
    cases h
    exact ⟨hs.atEnd, (receive_last s.buffer hm).trans hs.last⟩

/-- Messages that end in a newline and do not fill the buffer. -/
theorem alongRun_of_plain {ms : List Message} (hs : Sound s) (hms : ∀ m ∈ ms, Plain m) :
    AlongRun step Fits s ms := by
  induction ms generalizing s with
  | nil => trivial
  | cons m ms ih =>
      have hm : Plain m := hms m (List.mem_cons_self ..)
      refine ⟨fits_of_plain hs hm, fun r s' h => ?_⟩
      exact ih (step_sound hs hm h) fun m' hm' => hms m' (List.mem_cons_of_mem m hm')

/-- The text `"a"` with the magic number 1, with and without a newline. -/
def messageA (tail : List UInt8) (h : tail.length ≤ 1) : Message :=
  ⟨[1, 0, 0, 0, 97] ++ tail, [48], by
    rw [List.length_append, maxMessageSize]
    simp only [List.length_cons, List.length_nil]
    omega⟩

/-- Two messages in a new file. -/
theorem one_record_two_messages :
    let s := construct .udp 1 none [] fun _ => 0
    let m := messageA [lf] (by decide)
    ∃ rs s', run step s [m, m] = some (rs, s') ∧ Logged s [m, m] s' := by
  intro s m
  refine (one_record_iff s [m, m]).2 (alongRun_of_plain ⟨rfl, rfl⟩ fun m' hm' => ?_)
  obtain rfl : m' = m := by simpa using hm'
  exact ⟨by decide, by decide⟩

/-- Without the newline there is no line break: the next record goes on in the same line. -/
theorem newline_missing :
    let s := construct .udp 1 none [] fun _ => 0
    (∃ r s', step s (messageA [] (by decide)) = some (r, s') ∧
      s'.log.content = [48, 58, 32, 97]) ∧
    ¬ ∀ s ms, AlongRun step OneRecord s ms := by
  intro s
  have hacc : Accepted s.magicNumber (messageA [] (by decide)) := ⟨by decide, by decide⟩
  constructor
  · refine ⟨_, _, step_accepted hacc fun hendless => ?_, by decide⟩
    exact hendless 1 (List.mem_range.mpr (by decide)) rfl
  · intro hall
    have hone := (hall s [messageA [] (by decide)]).1
    exact absurd (((oneRecord_iff _ _).mp hone).newline hacc) (by decide)

end MyLibraries.Logger2
