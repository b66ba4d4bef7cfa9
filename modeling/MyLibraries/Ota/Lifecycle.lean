import MyLibraries.Ota.Process

/-!
# The firmware server from start to end

What is left of the image at every place of `main` (`Sound`), and which steps keep the process
clear of memory that is not there: it crashes exactly when a step is not `Orderly`, and when
`main` returns every image has been freed (`survives_iff_orderly`).
-/

namespace MyLibraries.Ota

open Memory Run Alloc

/-! ## Where the image is -/

/-- The image lies in the block `ota_ops.firmware`. -/
def MainPc.holdsImage : MainPc → Bool
  | .restart | .loaded | .started | .watching | .modified | .terminated => true
  | _ => false

/-- The version string lies in the image. -/
def MainPc.serving : MainPc → Bool
  | .restart | .watching | .modified | .terminated => true
  | _ => false

/-- The pointer to the one block that has not been freed. -/
def MainPc.live (pc : MainPc) (firmware : Ptr) : Ptr :=
  match pc with
  | .readingFile tmp _ => some tmp
  | pc => if pc.holdsImage then firmware else none

/-- A place with nothing special about it: `main` has no block of its own there, and no
image that the clients do not know yet. -/
def MainPc.plain : MainPc → Bool
  | .readingFile .. | .loaded | .crashed => false
  | _ => true

/-- Some variable of the process has a pointer to the block `b`. -/
def Process.Points (s : Process) (b : Nat) : Prop :=
  s.firmware = some b ∨ s.versionString = some b ∨
    ∃ c pageSize pageNum left, s.clients c = .located pageSize pageNum left (some b)

structure Sound (s : Process) : Prop where
  sole : Sole s.heap (s.pc.live s.firmware)
  lt_next : ∀ b, s.Points b → b < s.heap.next
  tmp_new : ∀ tmp stSize, s.pc = .readingFile tmp stSize → ¬ s.Points tmp
  block : ∀ tmp stSize, s.pc = .readingFile tmp stSize →
    ∃ m, s.heap.deref (some tmp) = some m ∧ m.length = stSize ∧ s.filesize = wrap 32 stSize
  image : s.pc.holdsImage = true → ∀ m, s.heap.deref s.firmware = some m →
    s.filesize = m.length ∧ m.length < 2 ^ 32
  loaded : s.served = true ∨ s.pc = .loaded → s.firmware ≠ none
  version : s.pc.serving = true → s.versionString = s.firmware
  stale : s.pc.serving = false → s.versionString = none ∨ s.versionString ≠ s.pc.live s.firmware
  string : s.pc.serving = true → s.served = true → s.stringAt s.firmware ≠ none
  going : s.pc ≠ .crashed

/-- A step that no block and no pointer stands against: `get_firmware` fails on the first
image only, the image has a version string, that string is copied while it lies in the
image, and a page is copied from the image that `src` was computed for and that still has
the bytes that `left` lets it take. -/
def Orderly (s : Process) : Action → Prop
  | .giveUp => s.firmware = none
  | .setVersion => s.stringAt s.firmware ≠ none
  | .getVersion _ => s.pc.serving = true
  | .copyPage c =>
    match s.clients c with
    | .located pageSize pageNum left src =>
      pageOffset pageSize pageNum < s.filesize →
        s.pc.holdsImage = true ∧ src = s.firmware ∧
          pageOffset pageSize pageNum + min left pageSize ≤ s.filesize
    | _ => True
  | _ => True

variable {s s' : Process} {a : Action} {r : List Reply} {rs : List (List Reply)} {c b : Nat}

theorem sound_init : Sound .init := by
  constructor
  · exact sole_empty
  · rintro b (h | h | ⟨c, pageSize, pageNum, left, h⟩) <;> cases h
  · intro tmp stSize h
    cases h
  · intro tmp stSize h
    cases h
  · intro _ m h
    cases h
  · rintro (h | h) <;> cases h
  · intro _
    rfl
  · intro h
    cases h
  · intro _ h
    cases h
  · intro h
    cases h

/-! ## The steps of `main` -/

theorem Sound.setPc (hs : Sound s) {pc : MainPc}
    (hlive : pc.live s.firmware = s.pc.live s.firmware) (himage : pc.holdsImage = s.pc.holdsImage)
    (hserving : pc.serving = s.pc.serving) (hplain : pc.plain = true) :
    Sound { s with pc := pc } := by
  constructor
  · show Sole s.heap (pc.live s.firmware)
    rw [hlive]
    exact hs.sole
  · exact hs.lt_next
  · intro tmp stSize h
    rw [show pc = .readingFile tmp stSize from h] at hplain
    cases hplain
  · intro tmp stSize h
    rw [show pc = .readingFile tmp stSize from h] at hplain
    cases hplain
  · intro h
    exact hs.image (himage ▸ h)
  · rintro (h | h)
    · exact hs.loaded (.inl h)
    · rw [show pc = .loaded from h] at hplain
      cases hplain
  · intro h
    exact hs.version (hserving ▸ h)
  · intro h
    show _ ∨ s.versionString ≠ pc.live s.firmware
    rw [hlive]
    exact hs.stale (hserving ▸ h)
  · intro h
    exact hs.string (hserving ▸ h)
  · intro h
    rw [show pc = .crashed from h] at hplain
    cases hplain

theorem live_of_holdsImage {pc : MainPc} {p : Ptr} (h : pc.holdsImage = true) : pc.live p = p := by
  cases pc with
  | readingFile tmp stSize => cases h
  | _ => first | rfl | cases h

/-- A step behind which no block is left. -/
theorem Sound.release (hs : Sound s) {heap : Heap Mem} (hsole : Sole heap none)
    (hnext : heap.next = s.heap.next) {pc : MainPc} (hlive : pc.live s.firmware = none)
    (himage : pc.holdsImage = false) (hserving : pc.serving = false) (hplain : pc.plain = true) :
    Sound { s with heap := heap, pc := pc } := by
  constructor
  · show Sole heap (pc.live s.firmware)
    rw [hlive]
    exact hsole
  · intro b hb
    rw [hnext]
    exact hs.lt_next b hb
  · intro tmp stSize h
    rw [show pc = .readingFile tmp stSize from h] at hplain
    cases hplain
  · intro tmp stSize h
    rw [show pc = .readingFile tmp stSize from h] at hplain
    cases hplain
  · intro h
    rw [himage] at h
    cases h
  · rintro (h | h)
    · exact hs.loaded (.inl h)
    · rw [show pc = .loaded from h] at hplain
      cases hplain
  · intro h
    rw [hserving] at h
    cases h
  · intro _
    show s.versionString = none ∨ s.versionString ≠ pc.live s.firmware
    rw [hlive]
    exact em _
  · intro h
    rw [hserving] at h
    cases h
  · intro h
    rw [show pc = .crashed from h] at hplain
    cases hplain

/-- The image is freed where there is one. -/
theorem Sound.freeFirmware (hs : Sound s) (himage : s.pc.holdsImage = true) {pc : MainPc}
    (hlive : pc.live s.firmware = none) (hfreed : pc.holdsImage = false)
    (hserving : pc.serving = false) (hplain : pc.plain = true) : Sound (s.freeFirmware pc) := by
  have hsole := hs.sole
  rw [live_of_holdsImage himage] at hsole
  obtain ⟨heap, hfree, hsole', hnext⟩ := hsole.free
  unfold Process.freeFirmware
  rw [hfree]
  exact hs.release hsole' hnext hlive hfreed hserving hplain

theorem Sound.freeTmp (hs : Sound s) {tmp stSize : Nat} (hpc : s.pc = .readingFile tmp stSize)
    (res : Int) : Sound (s.freeTmp tmp res) := by
  have hsole := hs.sole
  rw [hpc] at hsole
  obtain ⟨heap, hfree, hsole', hnext⟩ := hsole.free
  unfold Process.freeTmp
  have hfree : s.heap.free (some tmp) = some heap := hfree
  rw [hfree]
  exact hs.release hsole' hnext rfl rfl rfl rfl

/-- `get_firmware` asks for a block when there is none. -/
theorem Sound.stat (hs : Sound s) (hpc : s.pc = .getFirmware) (m : Mem) :
    Sound { s with
      heap := s.heap.malloc m
      filesize := wrap 32 m.length
      pc := .readingFile s.heap.next m.length } := by
  have hsole := hs.sole
  rw [hpc] at hsole
  have hnew : ∀ b, s.Points b → b ≠ s.heap.next := fun b hb => Nat.ne_of_lt (hs.lt_next b hb)
  constructor
  · exact hsole.malloc m
  · intro b hb
    exact Nat.lt_succ_of_lt (hs.lt_next b hb)
  · intro tmp stSize h hb
    cases h
    exact hnew _ hb rfl
  · intro tmp stSize h
    cases h
    exact ⟨m, deref_malloc, rfl, rfl⟩
  · intro h
    cases h
  · rintro (h | h)
    · exact hs.loaded (.inl h)
    · cases h
  · intro h
    cases h
  · intro _
    show s.versionString = none ∨ s.versionString ≠ some s.heap.next
    refine .inr fun h => ?_
    exact hnew _ (.inr (.inl h)) rfl
  · intro h
    cases h
  · intro h
    cases h

theorem length_filled {block : Mem} {bytes : Option (List UInt8)}
    (h : ∀ bs ∈ bytes, bs.length ≤ block.length) : (filled block bytes).length = block.length := by
  cases bytes with
  | none => rfl
  | some bs =>
    have hle := h bs rfl
    unfold filled
    rw [List.length_append, List.length_drop]
    omega

theorem readResult_lt (bytes : Option (List UInt8)) : readResult bytes < 2 ^ 32 := by
  cases bytes with
  | none => decide
  | some bs => exact wrap_lt _ _

/-- A file that has been read to its end fits `uint32_t`. -/
theorem Sound.read (hs : Sound s) {tmp stSize : Nat} {m : Mem} {bytes : Option (List UInt8)}
    (hpc : s.pc = .readingFile tmp stSize) (hm : s.heap.deref (some tmp) = some m)
    (hle : ∀ bs ∈ bytes, bs.length ≤ stSize) (hall : readResult bytes = stSize) :
    Sound { s with
      heap := s.heap.fill tmp (filled m bytes)
      firmware := some tmp
      pc := .loaded } := by
  obtain ⟨m', hm', hlen, hsize⟩ := hs.block tmp stSize hpc
  cases hm.symm.trans hm'
  have hsole := hs.sole
  rw [hpc] at hsole
  have hlt : stSize < 2 ^ 32 := hall ▸ readResult_lt bytes
  have htmp := hs.tmp_new tmp stSize hpc
  constructor
  · exact hsole.fill _
  · rintro b (h | h | h)
    · cases h
      exact hsole.lt_next tmp rfl
    · exact hs.lt_next b (.inr (.inl h))
    · exact hs.lt_next b (.inr (.inr h))
  · intro tmp stSize h
    cases h
  · intro tmp stSize h
    cases h
  · intro _ m' hderef
    cases deref_fill.symm.trans hderef
    rw [length_filled (by rw [hlen]; exact hle), hlen]
    exact ⟨hsize.trans (wrap_of_lt hlt), hlt⟩
  · rintro - h
    cases h
  · intro h
    cases h
  · intro _
    show s.versionString = none ∨ s.versionString ≠ some tmp
    exact .inr fun h => htmp (.inr (.inl h))
  · intro h
    cases h
  · intro h
    cases h

theorem Sound.serverStarts (hs : Sound s) (hpc : s.pc = .loaded) :
    Sound { s with served := true, pc := .started } := by
  have hpc' : Sound { s with pc := .started } :=
    hs.setPc (by rw [hpc]; rfl) (by rw [hpc]; rfl) (by rw [hpc]; rfl) rfl
  constructor
  · exact hpc'.sole
  · exact hpc'.lt_next
  · exact hpc'.tmp_new
  · exact hpc'.block
  · exact hpc'.image
  · intro _
    exact hs.loaded (.inr hpc)
  · exact hpc'.version
  · exact hpc'.stale
  · intro h
    cases h
  · exact hpc'.going

theorem Sound.setVersion (hs : Sound s) (hpc : s.pc = .started)
    (hstring : s.stringAt s.firmware ≠ none) :
    Sound { s with versionString := s.firmware, pc := .watching } := by
  have himage : s.pc.holdsImage = true := by rw [hpc]; rfl
  constructor
  · have hsole := hs.sole
    rw [live_of_holdsImage himage] at hsole
    exact hsole
  · rintro b (h | h | h)
    · exact hs.lt_next b (.inl h)
    · exact hs.lt_next b (.inl h)
    · exact hs.lt_next b (.inr (.inr h))
  · intro tmp stSize h
    cases h
  · intro tmp stSize h
    cases h
  · intro _
    exact hs.image himage
  · rintro (h | h)
    · exact hs.loaded (.inl h)
    · cases h
  · intro _
    rfl
  · intro h
    cases h
  · intro _ _
    exact hstring
  · intro h
    cases h

/-- Only `NULL` is freed without an image. -/
theorem freeFirmware_giveUp (hs : Sound s) {res : Int} (hpc : s.pc = .loadFailed res)
    (pc : MainPc) :
    s.freeFirmware pc = if s.firmware = none then { s with pc := pc } else s.crash := by
  have hsole := hs.sole
  rw [hpc] at hsole
  have hfree : s.heap.free s.firmware = if s.firmware = none then some s.heap else none :=
    Sole.free_none hsole
  unfold Process.freeFirmware
  rw [hfree]
  by_cases hf : s.firmware = none
  · rw [if_pos hf, if_pos hf]
  · rw [if_neg hf, if_neg hf]

theorem sound_mainStep (hs : Sound s) (ho : Orderly s a) (h : mainStep s a = some s') :
    Sound s' := by
  unfold mainStep at h
  split at h
  case h_1 hpc =>
    cases h
    exact hs.freeFirmware (by rw [hpc]; rfl) rfl rfl rfl rfl
  case h_2 hpc =>
    split at h <;> cases h
    exact hs.setPc (by rw [hpc]; rfl) (by rw [hpc]; rfl) (by rw [hpc]; rfl) rfl
  case h_3 hpc =>
    cases h
    exact hs.setPc (by rw [hpc]; rfl) (by rw [hpc]; rfl) (by rw [hpc]; rfl) rfl
  case h_4 hpc =>
    cases h
    exact hs.stat hpc _
  case h_5 hpc =>
    split at h <;> cases h
    exact hs.freeTmp hpc _
  case h_6 hpc =>
    split at h
    · rename_i m hm
      split at h
      · rename_i hle
        split at h <;> cases h
        · exact hs.freeTmp hpc _
        · rename_i hall
          exact hs.read hpc hm hle (not_not.mp hall)
      · cases h
    · rename_i hm
      obtain ⟨m, hm', -⟩ := hs.block _ _ hpc
      rw [hm] at hm'
      cases hm'
  case h_7 hpc =>
    cases h
    rw [freeFirmware_giveUp hs hpc, if_pos (show s.firmware = none from ho)]
    exact hs.setPc (by rw [hpc]; rfl) (by rw [hpc]; rfl) (by rw [hpc]; rfl) rfl
  case h_8 hpc =>
    cases h
    exact hs.freeFirmware (by rw [hpc]; rfl) rfl rfl rfl rfl
  case h_9 hpc =>
    cases h
    exact hs.serverStarts hpc
  case h_10 hpc =>
    split at h <;> cases h
    · exact hs.setVersion hpc ho
    · rename_i hnone
      exact absurd hnone ho
  case h_11 hpc =>
    cases h
    exact hs.setPc (by rw [hpc]; rfl) (by rw [hpc]; rfl) (by rw [hpc]; rfl) rfl
  case h_12 hpc =>
    cases h
    exact hs.setPc (by rw [hpc]; rfl) (by rw [hpc]; rfl) (by rw [hpc]; rfl) rfl
  case h_13 hpc =>
    cases h
    exact hs.setPc (by rw [hpc]; rfl) (by rw [hpc]; rfl) (by rw [hpc]; rfl) rfl
  case h_14 hpc =>
    cases h
    exact hs.freeFirmware (by rw [hpc]; rfl) rfl rfl rfl rfl
  case h_15 hpc =>
    cases h
    exact hs.setPc (by rw [hpc]; rfl) (by rw [hpc]; rfl) (by rw [hpc]; rfl) rfl
  case h_16 =>
    cases h

/-- A disorderly step of `main` is its last one. -/
theorem crash_mainStep (hs : Sound s) (ho : ¬ Orderly s a) (h : mainStep s a = some s') :
    s'.pc = .crashed := by
  unfold mainStep at h
  split at h
  case h_7 hpc =>
    cases h
    rw [freeFirmware_giveUp hs hpc, if_neg (show ¬ s.firmware = none from ho)]
    rfl
  case h_10 hpc =>
    split at h <;> cases h
    · rename_i hsome
      refine absurd ?_ ho
      unfold Orderly
      rw [hsome]
      exact Option.some_ne_none _
    · rfl
  all_goals first | exact absurd trivial ho | cases h

/-! ## The steps of the clients -/

@[simp] theorem setClient_self {pc : ClientPc} : (s.setClient c pc).clients c = pc :=
  Function.update_self ..

theorem setClient_of_ne {pc : ClientPc} {d : Nat} (h : d ≠ c) :
    (s.setClient c pc).clients d = s.clients d := Function.update_of_ne h ..

theorem Sound.setClient (hs : Sound s) {pc : ClientPc}
    (hsrc : ∀ pageSize pageNum left src, pc = .located pageSize pageNum left src →
      src = s.firmware) : Sound (s.setClient c pc) := by
  have hpoints : ∀ b, (s.setClient c pc).Points b → s.Points b := by
    rintro b (h | h | ⟨d, pageSize, pageNum, left, h⟩)
    · exact .inl h
    · exact .inr (.inl h)
    · by_cases hd : d = c
      · subst hd
        rw [setClient_self] at h
        exact .inl (hsrc _ _ _ _ h).symm
      · rw [setClient_of_ne hd] at h
        exact .inr (.inr ⟨d, pageSize, pageNum, left, h⟩)
  constructor
  · exact hs.sole
  · exact fun b hb => hs.lt_next b (hpoints b hb)
  · exact fun tmp stSize h hb => hs.tmp_new tmp stSize h (hpoints tmp hb)
  · exact hs.block
  · exact hs.image
  · exact hs.loaded
  · exact hs.version
  · exact hs.stale
  · exact hs.string
  · exact hs.going

/-- A pointer to an image that is gone, or to one that has never been there. -/
theorem Sound.deref_src (hs : Sound s) {pageSize pageNum left : Nat} {src : Ptr}
    (hc : s.clients c = .located pageSize pageNum left src)
    (hgone : ¬ (s.pc.holdsImage = true ∧ src = s.firmware)) : s.heap.deref src = none := by
  apply hs.sole.deref_ne
  by_cases himage : s.pc.holdsImage = true
  · rw [live_of_holdsImage himage]
    exact .inr fun h => hgone ⟨himage, h⟩
  · cases hpc : s.pc with
    | readingFile tmp stSize =>
      refine .inr fun h => hs.tmp_new tmp stSize hpc ?_
      rw [show src = some tmp from h] at hc
      exact .inr (.inr ⟨c, pageSize, pageNum, left, hc⟩)
    | restart | loaded | started | watching | modified | terminated =>
      rw [hpc] at himage
      exact absurd rfl himage
    | _ => exact em _

/-- The image of a server, and its size. -/
theorem Sound.image_exists (hs : Sound s) (hserved : s.served = true)
    (himage : s.pc.holdsImage = true) :
    ∃ m, s.heap.deref s.firmware = some m ∧ s.filesize = m.length ∧ m.length < 2 ^ 32 := by
  have hsole := hs.sole
  rw [live_of_holdsImage himage] at hsole
  obtain ⟨m, hm⟩ := hsole.deref_some (hs.loaded (.inl hserved))
  exact ⟨m, hm, hs.image himage m hm⟩

theorem sound_clientStep (hs : Sound s) (hserved : s.served = true) (ho : Orderly s a)
    (h : clientStep s a = some (r, s')) : Sound s' := by
  unfold clientStep at h
  split at h
  · split at h
    · split at h <;> cases h
      · exact hs.setClient fun _ _ _ _ h => by cases h
      · rename_i hnone
        rw [hs.version ho] at hnone
        exact absurd hnone (hs.string ho hserved)
    · cases h
  · split at h <;> cases h
    exact hs.setClient fun _ _ _ _ h => by cases h
  · split at h <;> cases h
    exact hs.setClient fun _ _ _ _ h => by cases h
  · split at h <;> cases h
    refine hs.setClient fun _ _ _ _ h => ?_
    cases h
    rfl
  · split at h
    · rename_i c pageSize pageNum left src hc
      simp only [Orderly, hc] at ho
      unfold Process.copyPage at h
      split at h
      · cases h
        exact hs.setClient fun _ _ _ _ h => by cases h
      · rename_i hlt
        obtain ⟨himage, rfl, hfits⟩ := ho (Nat.lt_of_not_le hlt)
        obtain ⟨m, hm, hsize, -⟩ := hs.image_exists hserved himage
        obtain ⟨data, hdata⟩ := load_exists (hsize ▸ hfits)
        rw [hm, Option.bind_some, hdata] at h
        cases h
        exact hs.setClient fun _ _ _ _ h => by cases h
    · cases h
  · cases h

/-- A disorderly step of a client is the last one of the process. -/
theorem crash_clientStep (hs : Sound s) (hserved : s.served = true) (ho : ¬ Orderly s a)
    (h : clientStep s a = some (r, s')) : s'.pc = .crashed := by
  unfold clientStep at h
  split at h
  · have hstale : s.heap.deref s.versionString = none :=
      hs.sole.deref_ne (hs.stale (Bool.not_eq_true _ ▸ ho))
    split at h
    · rw [Process.stringAt, hstale, Option.bind_none] at h
      cases h
      rfl
    · cases h
  · exact absurd trivial ho
  · exact absurd trivial ho
  · exact absurd trivial ho
  · split at h
    · rename_i c pageSize pageNum left src hc
      simp only [Orderly, hc, not_forall] at ho
      obtain ⟨hlt, ho⟩ := ho
      unfold Process.copyPage at h
      rw [if_neg (Nat.not_le.mpr hlt)] at h
      have hfault : (s.heap.deref src).bind (fun m =>
          load m (pageOffset pageSize pageNum) (min left pageSize)) = none := by
        by_cases hsrc : s.pc.holdsImage = true ∧ src = s.firmware
        · obtain ⟨himage, rfl⟩ := hsrc
          obtain ⟨m, hm, hsize, -⟩ := hs.image_exists hserved himage
          rw [hm, Option.bind_some]
          refine if_neg fun hfits => ho ⟨himage, rfl, ?_⟩
          rw [hsize]
          exact hfits
        · rw [hs.deref_src hc hsrc, Option.bind_none]
      rw [hfault] at h
      cases h
      rfl
    · cases h
  · cases h

/-! ## Runs -/

theorem step_cases (h : step s a = some (r, s')) : (mainStep s a = some s' ∧ r = []) ∨
    (s.served = true ∧ s.pc.ended = false ∧ clientStep s a = some (r, s')) := by
  unfold step at h
  split at h
  · rename_i hmain
    cases h
    exact .inl ⟨hmain, rfl⟩
  · split at h
    · rename_i hserves
      exact .inr ⟨hserves.1, hserves.2, h⟩
    · cases h

theorem sound_step (hs : Sound s) (ho : Orderly s a) (h : step s a = some (r, s')) :
    Sound s' := by
  rcases step_cases h with ⟨hmain, -⟩ | ⟨hserved, -, hclient⟩
  · exact sound_mainStep hs ho hmain
  · exact sound_clientStep hs hserved ho hclient

theorem crash_step (hs : Sound s) (ho : ¬ Orderly s a) (h : step s a = some (r, s')) :
    s'.pc = .crashed := by
  rcases step_cases h with ⟨hmain, -⟩ | ⟨hserved, -, hclient⟩
  · exact crash_mainStep hs ho hmain
  · exact crash_clientStep hs hserved ho hclient

theorem step_of_crashed (h : s.pc = .crashed) : step s a = none := by
  have hmain : mainStep s a = none := by
    unfold mainStep
    rw [h]
  unfold step
  rw [hmain, h]
  exact if_neg fun hserves => by cases hserves.2

/-- **A run crashes at its first disorderly step.** Whatever the order of the threads, every
access of the image finds it, and every block is freed once, exactly as long as the steps are
orderly; and when `main` returns then, it leaves no block behind. -/
theorem survives_iff_orderly (is : List Action) (h : run step .init is = some (rs, s)) :
    (s.pc ≠ .crashed ↔ AlongRun step Orderly .init is) ∧
      ∀ res, s.pc = .returned res → ∀ p, s.heap.deref p = none := by
  have hiff : s.pc ≠ .crashed ↔ AlongRun step Orderly .init is :=
    survives_iff_alongRun (fun _ hs => hs.going) (fun _ _ => step_of_crashed)
      (fun _ _ _ _ => sound_step) (fun _ _ _ _ => crash_step) sound_init h
  refine ⟨hiff, fun res hres p => ?_⟩
  have halong := hiff.mp (by rw [hres]; exact fun h => by cases h)
  have hs : Sound s := inv_of_alongRun (fun _ _ _ _ => sound_step) sound_init halong h
  have hsole := hs.sole
  rw [hres] at hsole
  exact hsole.deref_ne (em _)

/-- An image of 52 bytes, with the version string `A`. -/
def labelledImage : Mem := List.replicate 48 0 ++ [65, 0, 1, 2]

/-- A client is answered, and another one is while the file is loaded again. -/
def reloading : List Action :=
  [.free, .stat (List.replicate 52 7), .read (some labelledImage), .serverStarts, .setVersion,
    .getVersion 3, .sendVersion 3, .getNextPage 3 2 25, .locate 3, .modify, .copyPage 3,
    .getNextPage 4 2 25, .serverStop 0, .free, .stat (List.replicate 52 7), .locate 4]

theorem survives_iff_orderly_reloading : ∃ rs s, run step .init reloading = some (rs, s) ∧
    rs.flatten = [.version 3 [65] 52, .page 3 2 25 [1, 2]] ∧
    (s.pc ≠ .crashed ↔ AlongRun step Orderly .init reloading) ∧
      ∀ res, s.pc = .returned res → ∀ p, s.heap.deref p = none :=
  ⟨_, _, rfl, rfl, survives_iff_orderly reloading rfl⟩

end MyLibraries.Ota
