import MyLibraries.Core.Memory

/-!
# The argument parser

`parse` cuts a command string in place, collects pointers behind the cuts, and looks for the
command in a list of callbacks. A run faults where it reads outside the memory or writes
outside `argv`. The loop of the search does not move the pointer to the list.
-/

namespace MyLibraries.ArgParser

open Memory

/-- `MAX_ARG_CNT`. -/
def maxArgCnt : Nat := 32

/-- `' '`. -/
def space : UInt8 := 32

/-- `char *argv[MAX_ARG_CNT]`, with the elements not written yet. -/
abbrev Argv := Vector (Option Nat) maxArgCnt

/-- `int (*cb)(int argc, char *argv[])`: what it returns may depend on the memory. -/
abbrev Callback := Nat → Argv → Mem → Int

/-- `arg_list_t`. -/
structure ArgList where
  cmd : CString
  cb : Callback

/-- A call of a callback. -/
structure Call where
  cb : Callback
  argc : Nat
  argv : Argv
  mem : Mem

/-- What the call returned. -/
def Call.result (c : Call) : Int := c.cb c.argc c.argv c.mem

/-- The strings that the elements of `argv` below `argc` point to. -/
def Call.args (c : Call) : Option (List (List UInt8)) :=
  (c.argv.toList.take c.argc).mapM fun ptr => ptr.bind (loadString c.mem)

/-- The first `c` in the string at `s`. -/
def strchr (m : Mem) (s : Nat) (c : UInt8) : Option (Option Nat) :=
  (loadString m s).map fun str => (str.idxOf? c).map (s + ·)

theorem strchr_bounds {m : Mem} {s token : Nat} {c : UInt8}
    (h : strchr m s c = some (some token)) : s ≤ token ∧ token < m.length := by
  obtain ⟨str, hstr, hidx⟩ := Option.map_eq_some_iff.mp h
  obtain ⟨i, hi, rfl⟩ := Option.map_eq_some_iff.mp hidx
  have hlt : i < str.length := (List.findIdx?_eq_some_iff_findIdx_eq.mp hi).1
  have hend := (List.getElem?_eq_some_iff.mp (loadString_terminated hstr)).1
  omega

/-- What the split leaves. -/
structure Split where
  mem : Mem
  argc : Nat
  argv : Argv

/-- The loop that splits the string from `rdPtr` on. -/
def splitLoop (m : Mem) (rdPtr argc : Nat) (argv : Argv) : Option Split :=
  match _h : strchr m rdPtr space with
  | none => none
  | some none => some { mem := m, argc, argv }
  | some (some token) =>
    match _hs : store m token [0] with
    | none => none
    | some m' =>
      if hargc : argc < maxArgCnt then
        splitLoop m' (token + 1) (argc + 1) (argv.set argc (some (token + 1)) hargc)
      else none
termination_by m.length - rdPtr
decreasing_by
  have hbounds := strchr_bounds _h
  rw [store_length _hs]
  omega

/-- `while (size--)`: the result, and the calls made. -/
def search (argStr : Nat) (argList : List ArgList) (s : Split) : Nat → Option (Int × List Call)
  | 0 => some (0, [])
  | size + 1 => do
    let entry ← argList[0]?
    let str ← loadString s.mem argStr
    if str = entry.cmd.1 then
      let call : Call := { cb := entry.cb, argc := s.argc, argv := s.argv, mem := s.mem }
      some (call.result, [call])
    else search argStr argList s size

/-- `parse`; a null `argStr` is `none`. -/
def parse (m : Mem) (argStr : Option Nat) (argList : List ArgList) (size : Nat) :
    Option (Int × List Call) :=
  match argStr with
  | none => some (0, [])
  | some argStr => do
    let s ← splitLoop m argStr 0 (Vector.replicate maxArgCnt none)
    search argStr argList s size

/-- `ARG_PARSE`. -/
def argParse (m : Mem) (argStr : Option Nat) (argList : List ArgList) :
    Option (Int × List Call) :=
  parse m argStr argList argList.length

end MyLibraries.ArgParser
