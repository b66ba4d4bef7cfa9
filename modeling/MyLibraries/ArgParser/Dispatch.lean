import MyLibraries.ArgParser.Split

/-!
# The dispatch

The search compares the same entry again and again, the first one of the list. So it calls
the right callback when that is the first entry's, and none when no entry matches; and with
more spaces than `argv` has elements it is not reached.
-/

namespace MyLibraries.ArgParser

open Memory

variable {m : Mem} {p : Nat} {s word : List UInt8} {sp : Split} {e : ArgList} {es : List ArgList}

/-! ## The search -/

/-- The call of an entry's callback behind the split. -/
def callOf (e : ArgList) (sp : Split) : Call :=
  { cb := e.cb, argc := sp.argc, argv := sp.argv, mem := sp.mem }

theorem search_of_eq (hstr : loadString sp.mem p = some word) (h : e.cmd.1 = word) (size : Nat) :
    search p (e :: es) sp (size + 1) = some ((callOf e sp).result, [callOf e sp]) := by
  unfold search
  rw [List.getElem?_cons_zero, hstr]
  exact if_pos h.symm

/-- When the first entry does not match, no entry is called. -/
theorem search_of_ne (hstr : loadString sp.mem p = some word) (h : e.cmd.1 ≠ word) (size : Nat) :
    search p (e :: es) sp size = some (0, []) := by
  induction size with
  | zero => rfl
  | succ size ih =>
    unfold search
    rw [List.getElem?_cons_zero, hstr]
    exact (if_neg fun heq => h heq.symm).trans ih

theorem argParse_of_split (h : splitLoop m p 0 (Vector.replicate maxArgCnt none) = some sp)
    (argList : List ArgList) :
    argParse m (some p) argList = search p argList sp argList.length := by
  unfold argParse parse
  dsimp only
  rw [h]
  rfl

/-! ## The bound of `argv` -/

theorem argParse_overflow (hat : At m p (s ++ [0])) (h₀ : 0 ∉ s)
    (h : maxArgCnt < s.count space) (argList : List ArgList) :
    argParse m (some p) argList = none := by
  unfold argParse parse
  dsimp only
  rw [splitLoop_overflow hat h₀ (Nat.zero_le _) (by omega)]
  rfl

/-- The calls are those of the first entry. -/
theorem search_cases (hstr : loadString sp.mem p = some word) (argList : List ArgList) :
    search p argList sp argList.length = some (0, []) ∨
      ∃ e es, argList = e :: es ∧
        search p argList sp argList.length = some ((callOf e sp).result, [callOf e sp]) := by
  cases argList with
  | nil => exact .inl rfl
  | cons e es =>
    by_cases h : e.cmd.1 = word
    · exact .inr ⟨e, es, rfl, search_of_eq hstr h es.length⟩
    · exact .inl (search_of_ne hstr h _)

/-- **The bound of `argv`**: `parse` writes inside it, and passes no more arguments, exactly
when the string has no more spaces than `argv` has elements. -/
theorem parse_bounded_iff (hat : At m p (s ++ [0])) (h₀ : 0 ∉ s) (argList : List ArgList) :
    (∃ res calls, argParse m (some p) argList = some (res, calls) ∧
      ∀ c ∈ calls, c.argc ≤ maxArgCnt) ↔ s.count space ≤ maxArgCnt := by
  constructor
  · rintro ⟨res, calls, hparse, -⟩
    by_contra h
    rw [argParse_overflow hat h₀ (not_le.mp h)] at hparse
    cases hparse
  · intro hroom
    obtain ⟨sp, hsplit, hargc, hword, -⟩ := split_spec hat h₀ hroom
    rw [argParse_of_split hsplit]
    rcases search_cases hword argList with h | ⟨e, es, -, h⟩
    · exact ⟨_, _, h, fun c hc => absurd hc List.not_mem_nil⟩
    · refine ⟨_, _, h, fun c hc => ?_⟩
      rw [List.mem_singleton.mp hc]
      exact hargc.trans_le hroom

/-- Two spaces side by side. -/
theorem parse_bounded_spaces :
    ∃ res calls, argParse [97, 32, 32, 98, 0] (some 0)
        [{ cmd := ⟨[97], by decide⟩, cb := fun argc _ _ => argc }] = some (res, calls) ∧
      ∀ c ∈ calls, c.argc ≤ maxArgCnt :=
  (parse_bounded_iff (s := [97, 32, 32, 98]) (by decide) (by decide) _).mpr (by decide)

/-- A string of 33 spaces. -/
theorem parse_overflows : argParse (List.replicate 33 32 ++ [0]) (some 0) [] = none :=
  argParse_overflow (s := List.replicate 33 32) (by decide) (by decide) (by decide) []

/-! ## The callback -/

/-- What the dispatch is to do: call the callback of the first entry with the command word,
and return its result; without such an entry call none and return 0. -/
def Dispatched (argList : List ArgList) (word : List UInt8) (r : Int × List Call) : Prop :=
  match argList.find? fun e => e.cmd.1 = word with
  | some e => ∃ c, r.2 = [c] ∧ c.cb = e.cb ∧ r.1 = c.result
  | none => r = (0, [])

theorem dispatched_of_head (h : e.cmd.1 = word) :
    Dispatched (e :: es) word ((callOf e sp).result, [callOf e sp]) := by
  unfold Dispatched
  rw [List.find?_cons_of_pos (by simpa using h)]
  exact ⟨callOf e sp, rfl, rfl, rfl⟩

/-- Calling nothing is right exactly when no entry has the command word. -/
theorem dispatched_nothing_iff {argList : List ArgList} :
    Dispatched argList word (0, []) ↔ ∀ e ∈ argList, e.cmd.1 ≠ word := by
  unfold Dispatched
  cases hfind : argList.find? fun e => e.cmd.1 = word with
  | none => exact iff_of_true rfl fun e he => by simpa using List.find?_eq_none.mp hfind e he
  | some e =>
    refine iff_of_false ?_ fun h => ?_
    · rintro ⟨c, hc, -⟩
      cases hc
    · exact h e (List.mem_of_find?_eq_some hfind) (by simpa using List.find?_some hfind)

/-- **Command dispatch**, of a string with room for its arguments: it is right exactly when
no entry has the command word, or the first one has it. -/
theorem parse_dispatched_iff (hat : At m p (s ++ [0])) (h₀ : 0 ∉ s)
    (hroom : s.count space ≤ maxArgCnt) (argList : List ArgList) :
    ∃ r, argParse m (some p) argList = some r ∧
      (Dispatched argList (commandWord s) r ↔
        (∀ e ∈ argList, e.cmd.1 ≠ commandWord s) ∨
          ∃ e, argList.head? = some e ∧ e.cmd.1 = commandWord s) := by
  obtain ⟨sp, hsplit, -, hword, -⟩ := split_spec hat h₀ hroom
  rw [argParse_of_split hsplit]
  cases argList with
  | nil => exact ⟨_, rfl, iff_of_true rfl (.inl fun e he => absurd he List.not_mem_nil)⟩
  | cons e es =>
    by_cases h : e.cmd.1 = commandWord s
    · exact ⟨_, search_of_eq hword h es.length, iff_of_true (dispatched_of_head h)
        (.inr ⟨e, rfl, h⟩)⟩
    · refine ⟨_, search_of_ne hword h _, ?_⟩
      rw [dispatched_nothing_iff]
      constructor
      · exact .inl
      · rintro (hall | ⟨e', he', heq⟩)
        · exact hall
        · cases he'
          exact absurd heq h

/-- The first of two entries. -/
theorem parse_dispatches_first :
    ∃ r, argParse [97, 32, 98, 0] (some 0)
        [{ cmd := ⟨[97], by decide⟩, cb := fun _ _ _ => 1 },
          { cmd := ⟨[98], by decide⟩, cb := fun _ _ _ => 2 }] = some r ∧
      Dispatched [{ cmd := ⟨[97], by decide⟩, cb := fun _ _ _ => 1 },
        { cmd := ⟨[98], by decide⟩, cb := fun _ _ _ => 2 }] [97] r := by
  obtain ⟨r, hparse, hiff⟩ := parse_dispatched_iff (m := [97, 32, 98, 0]) (p := 0)
    (s := [97, 32, 98]) (by decide) (by decide) (by decide)
    [{ cmd := ⟨[97], by decide⟩, cb := fun _ _ _ => 1 },
      { cmd := ⟨[98], by decide⟩, cb := fun _ _ _ => 2 }]
  exact ⟨r, hparse, hiff.mpr (.inr ⟨_, rfl, rfl⟩)⟩

/-- The second of two entries is not found. -/
theorem parse_misses_second :
    argParse [98, 0] (some 0) [{ cmd := ⟨[97], by decide⟩, cb := fun _ _ _ => 1 },
      { cmd := ⟨[98], by decide⟩, cb := fun _ _ _ => 2 }] = some (0, []) := by
  obtain ⟨sp, hsplit, -, hword, -⟩ :=
    split_spec (m := [98, 0]) (p := 0) (s := [98]) (by decide) (by decide) (by decide)
  rw [argParse_of_split hsplit]
  exact search_of_ne hword (by decide) 2

/-! ## The arguments -/

/-- **Argument splitting is lossless.** When the first entry matches, its callback gets the
string cut at its spaces. -/
theorem parse_lossless (hat : At m p (s ++ [0])) (h₀ : 0 ∉ s)
    (hroom : s.count space ≤ maxArgCnt) (hcmd : e.cmd.1 = commandWord s) (es : List ArgList) :
    ∃ c args, argParse m (some p) (e :: es) = some (c.result, [c]) ∧ c.cb = e.cb ∧
      loadString c.mem p = some (commandWord s) ∧ Splits s c args := by
  obtain ⟨sp, hsplit, -, hword, hargs⟩ := split_spec hat h₀ hroom
  obtain ⟨args, hsplits⟩ := hargs e.cb
  refine ⟨callOf e sp, args, ?_, rfl, hword, hsplits⟩
  rw [argParse_of_split hsplit]
  exact search_of_eq hword hcmd es.length

/-- A string with two spaces side by side and one at its end. -/
theorem parse_lossless_spaces :
    ∃ c args, argParse [97, 32, 32, 98, 32, 0] (some 0)
        [{ cmd := ⟨[97], by decide⟩, cb := fun argc _ _ => argc }] = some (c.result, [c]) ∧
      loadString c.mem 0 = some [97] ∧ Splits [97, 32, 32, 98, 32] c args := by
  obtain ⟨c, args, hparse, -, hword, hargs⟩ := parse_lossless (m := [97, 32, 32, 98, 32, 0])
    (p := 0) (s := [97, 32, 32, 98, 32]) (by decide) (by decide) (by decide)
    (e := { cmd := ⟨[97], by decide⟩, cb := fun argc _ _ => argc }) (by decide) []
  exact ⟨c, args, hparse, hword, hargs⟩

end MyLibraries.ArgParser
