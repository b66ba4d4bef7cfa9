import MyLibraries.ArgParser.Model
import MyLibraries.Core.Words

/-!
# The split

The loop puts a terminator over each space and notes where the next word begins. So it
leaves the words of the string with a terminator each, and in `argv` where all but the first
begin, as long as there are elements for them; then every word can be read back, and joining
them gives the string.
-/

namespace MyLibraries.ArgParser

open Memory Words

variable {m m' : Mem} {p argc : Nat} {argv : Argv} {s w rest : List UInt8}

/-! ## One pass -/

theorem idxOf?_cut (h : space ∉ w) (rest : List UInt8) :
    (w ++ space :: rest).idxOf? space = some w.length := by
  apply List.findIdx?_eq_some_iff_findIdx_eq.mpr
  refine ⟨by simp, ?_⟩
  show (w ++ space :: rest).idxOf space = w.length
  rw [List.idxOf_append, if_neg h, List.idxOf_cons_self, Nat.zero_add]

/-- Without a space the loop ends. -/
theorem splitLoop_last (hat : At m p (w ++ [0])) (h₀ : 0 ∉ w) (hw : space ∉ w) :
    splitLoop m p argc argv = some { mem := m, argc, argv } := by
  have hchr : strchr m p space = some none := by
    rw [strchr, loadString_of_at h₀ hat, Option.map_some, List.idxOf?_eq_none_iff.mpr hw]
    rfl
  unfold splitLoop
  split
  · rename_i h
    cases hchr.symm.trans h
  · rfl
  · rename_i h
    cases hchr.symm.trans h

/-- A pass cuts the string at its first space. -/
theorem splitLoop_cut (hat : At m p (w ++ space :: rest ++ [0])) (h₀ : 0 ∉ w ++ space :: rest)
    (hw : space ∉ w) : ∃ m₁, store m (p + w.length) [0] = some m₁ ∧
      splitLoop m p argc argv = if hargc : argc < maxArgCnt then
        splitLoop m₁ (p + w.length + 1) (argc + 1)
          (argv.set argc (some (p + w.length + 1)) hargc) else none := by
  have hchr : strchr m p space = some (some (p + w.length)) := by
    rw [strchr, loadString_of_at h₀ hat, Option.map_some, idxOf?_cut hw]
    rfl
  obtain ⟨m₁, hm₁⟩ := store_exists m (p + w.length) [0] (by
    have := at_bound hat
    simp only [List.length_append, List.length_cons, List.length_nil] at this ⊢
    omega)
  refine ⟨m₁, hm₁, ?_⟩
  conv_lhs => unfold splitLoop
  split
  · rename_i h
    cases hchr.symm.trans h
  · rename_i h
    cases hchr.symm.trans h
  · rename_i token h
    cases hchr.symm.trans h
    split
    · rename_i h
      cases hm₁.symm.trans h
    · rename_i m₂ h
      cases hm₁.symm.trans h
      rfl

/-- The cut leaves the first word with a terminator, and the rest of the string. -/
theorem at_cut {m₁ : Mem} (hat : At m p (w ++ space :: rest ++ [0]))
    (hm₁ : store m (p + w.length) [0] = some m₁) :
    At m₁ p (w ++ [0]) ∧ At m₁ (p + w.length + 1) (rest ++ [0]) := by
  rw [List.append_assoc, List.cons_append, at_append, at_cons] at hat
  obtain ⟨hfirst, -, hrest⟩ := hat
  refine ⟨at_append.mpr ⟨(at_store_frame hm₁ ?_).mpr hfirst, at_of_store hm₁⟩,
    (at_store_frame hm₁ ?_).mpr hrest⟩
  · exact .inl le_rfl
  · exact .inr le_rfl

/-- What the pass writes to `argv`, and what the others write behind it. -/
theorem argv_cut {argv' : Argv} {n : Nat} {words : List (List UInt8)} (hargc : argc < maxArgCnt)
    (hne : words ≠ []) (h : argv'.toList.take (argc + 1 + n) =
      (argv.set argc (some (p + w.length + 1)) hargc).toList.take (argc + 1) ++
        (starts (p + w.length + 1) words).tail.map some) :
    argv'.toList.take (argc + (n + 1)) =
      argv.toList.take argc ++ (starts p (w :: words)).tail.map some := by
  have hlen : argc < argv.toList.length := by rwa [Vector.length_toList]
  have hset : (argv.set argc (some (p + w.length + 1)) hargc).toList.take (argc + 1) =
      argv.toList.take argc ++ [some (p + w.length + 1)] := by
    rw [Vector.toList_set, List.take_add_one, List.take_set_of_le le_rfl,
      List.getElem?_set_self hlen]
    rfl
  obtain ⟨v, words, rfl⟩ := List.exists_cons_of_ne_nil hne
  rw [Nat.add_right_comm, Nat.add_assoc] at h
  rw [h, hset, List.append_assoc]
  rfl

/-! ## The loop -/

/-- **What the loop leaves** when `argv` has room. -/
theorem splitLoop_run (hat : At m p (s ++ [0])) (h₀ : 0 ∉ s)
    (hroom : argc + s.count space ≤ maxArgCnt) :
    ∃ m' argv', splitLoop m p argc argv =
        some { mem := m', argc := argc + s.count space, argv := argv' } ∧
      At m' p (image (s.splitOn space)) ∧
      (∀ q cs, q + cs.length ≤ p → At m q cs → At m' q cs) ∧
      argv'.toList.take (argc + s.count space) =
        argv.toList.take argc ++ (starts p (s.splitOn space)).tail.map some := by
  induction s using split_induction space generalizing m p argc argv with
  | last w hw =>
    refine ⟨m, argv, ?_, ?_, fun _ _ _ h => h, ?_⟩
    · rw [splitLoop_last hat h₀ hw, List.count_eq_zero.mpr hw, Nat.add_zero]
    · rw [List.splitOn_eq_singleton hw]
      simpa [image] using hat
    · rw [List.splitOn_eq_singleton hw, List.count_eq_zero.mpr hw, Nat.add_zero]
      simp [starts]
  | cut w rest hw ih =>
    rw [count_cut hw] at hroom ⊢
    obtain ⟨m₁, hm₁, hpass⟩ := @splitLoop_cut m p argc argv w rest hat h₀ hw
    obtain ⟨hfirst, hrest⟩ := at_cut hat hm₁
    have hargc : argc < maxArgCnt := by omega
    have h₀' : 0 ∉ rest := fun h => h₀ (List.mem_append_right _ (List.mem_cons_of_mem _ h))
    obtain ⟨m', argv', hloop, hwords, hframe, hargv⟩ :=
      @ih m₁ (p + w.length + 1) (argc + 1) (argv.set argc (some (p + w.length + 1)) hargc) hrest h₀'
        (by omega)
    refine ⟨m', argv', ?_, ?_, ?_, ?_⟩
    · rw [hpass, dif_pos hargc, hloop, Nat.add_right_comm, Nat.add_assoc]
    · rw [splitOn_cut hw, at_image_cons]
      refine ⟨hframe _ _ ?_ hfirst, hwords⟩
      rw [List.length_append, List.length_singleton, Nat.add_assoc]
    · intro q cs hq hcs
      refine hframe q cs (by omega) ?_
      exact (at_store_frame hm₁ (.inl (by omega))).mpr hcs
    · rw [splitOn_cut hw]
      exact argv_cut hargc (List.splitOn_ne_nil space rest) hargv

/-- Without room for all the words, the loop writes behind `argv`. -/
theorem splitLoop_overflow (hat : At m p (s ++ [0])) (h₀ : 0 ∉ s) (hargc : argc ≤ maxArgCnt)
    (hroom : maxArgCnt < argc + s.count space) : splitLoop m p argc argv = none := by
  induction s using split_induction space generalizing m p argc argv with
  | last w hw =>
    rw [List.count_eq_zero.mpr hw] at hroom
    omega
  | cut w rest hw ih =>
    rw [count_cut hw] at hroom
    obtain ⟨m₁, hm₁, hpass⟩ := @splitLoop_cut m p argc argv w rest hat h₀ hw
    rw [hpass]
    split
    · have h₀' : 0 ∉ rest := fun h => h₀ (List.mem_append_right _ (List.mem_cons_of_mem _ h))
      exact ih (at_cut hat hm₁).2 h₀' (by omega) (by omega)
    · rfl

/-! ## The split -/

/-- The text before the first space. -/
def commandWord (s : List UInt8) : List UInt8 := s.takeWhile (· ≠ space)

/-- What the callbacks are to be given: as many arguments as the string has spaces, each
without one, that give the string when they are joined behind the command word. -/
structure Splits (s : List UInt8) (c : Call) (args : List (List UInt8)) : Prop where
  argc_eq : c.argc = s.count space
  args_eq : c.args = some args
  length_eq : args.length = c.argc
  space_notMem : ∀ a ∈ args, space ∉ a
  joined : [space].intercalate (commandWord s :: args) = s

/-- **The split of a string** with room for its words: the command word stays where the
string was, and `argv` has the others. -/
theorem split_spec (hat : At m p (s ++ [0])) (h₀ : 0 ∉ s) (hroom : s.count space ≤ maxArgCnt) :
    ∃ sp, splitLoop m p 0 (Vector.replicate maxArgCnt none) = some sp ∧
      sp.argc = s.count space ∧
      loadString sp.mem p = some (commandWord s) ∧
      ∀ cb, ∃ args, Splits s { cb, argc := sp.argc, argv := sp.argv, mem := sp.mem } args := by
  obtain ⟨m', argv', hloop, hwords, -, hargv⟩ :=
    @splitLoop_run m p 0 (Vector.replicate maxArgCnt none) s hat h₀ (by omega)
  obtain ⟨args, hsplit⟩ := @splitOn_eq_cons _ _ space s
  have hword {w : List UInt8} (hw : w ∈ commandWord s :: args) :
      0 ∉ w ∧ space ∉ w := by
    rw [commandWord, ← hsplit] at hw
    exact ⟨fun h => h₀ (mem_of_mem_splitOn hw h), sep_notMem_of_mem_splitOn hw⟩
  have hlength := splitOn_length space s
  have hjoin : [space].intercalate (s.splitOn space) = s := List.intercalate_splitOn space
  rw [hsplit] at hwords hlength hjoin hargv
  obtain ⟨hfirst, hrest⟩ := at_image_cons.mp hwords
  rw [Nat.zero_add] at hloop hargv
  refine ⟨_, hloop, rfl, loadString_of_at (hword (List.mem_cons_self ..)).1 hfirst,
    fun cb => ⟨args, rfl, ?_, Nat.succ.inj hlength,
      fun a ha => (hword (List.mem_cons_of_mem _ ha)).2, hjoin⟩⟩
  have hread := mapM_loadString hrest fun a ha => (hword (List.mem_cons_of_mem _ ha)).1
  unfold Call.args
  dsimp only
  rw [hargv, List.take_zero, List.nil_append]
  show (List.map some (starts _ args)).mapM (fun ptr => ptr.bind (loadString m')) = _
  rw [List.mapM_map]
  exact hread

end MyLibraries.ArgParser
