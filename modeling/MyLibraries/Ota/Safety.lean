import MyLibraries.Ota.Steps

/-!
# Which requests are handled inside of the buffer and the image

Every access of `handler` is looked at in turn, by the sequencing rule. The reads of the
image and of the header are always in place; the two copies, of the version string and of
a page, are the ones that the length of the string and the fields of the request decide.
-/

namespace MyLibraries.Ota

open Memory Access

/-! ## The property -/

/-- The bytes of the receive buffer that an answer may change: the fields `vers`,
`fw_file_size` and `page_size` of the header, and the data behind it. -/
def Writable (i : Nat) : Prop :=
  (versAt ≤ i ∧ i < versAt + versionStringLen) ∨ (fwFileSizeAt ≤ i ∧ i < fwFileSizeAt + 4) ∨
    (pageSizeAt ≤ i ∧ i < pageSizeAt + 4) ∨ (dataAt ≤ i ∧ i < otaHeaderSize)

/-- The writes stay in the writable part of the buffer, the reads of the image in the
image. -/
def SafeEvent (ops : OtaOps) : Event Block (List UInt8) → Prop
  | .read .firmware p n => p + n ≤ ops.firmware.length
  | .write .data p n => ∀ i, p ≤ i → i < p + n → Writable i
  | .write .firmware _ _ => False
  | _ => True

/-- Every access of `handler` on a request is safe. -/
def MemorySafe (ops : OtaOps) (r : Request) : Prop :=
  Along (SafeEvent ops) (handler ops r.size) (ops.blocks r.buffer)

/-- What a request asks for fits: the version string ends before `page_num`, and the page
is no longer than the data of a message. -/
def Fits (ops : OtaOps) (r : Request) : Prop :=
  field r.buffer magicWordAt = ops.magicWord →
    (field r.buffer cmdAt = cmdGetLatestVersion →
      ∃ k < versionStringLen + 8, ops.firmware[version + k]? = some 0) ∧
    (field r.buffer cmdAt = cmdGetPageData →
      let offset := wrap 32 (field r.buffer pageSizeAt * field r.buffer pageNumAt)
      offset < ops.filesize →
        min (field r.buffer pageSizeAt) (ops.filesize - offset) ≤ pageSizeMax)

variable {ops : OtaOps} {buffer buffer' : Mem} {P : Event Block (List UInt8) → Prop}
  {p q w n offset left pageSize size : Nat} {bs : List UInt8}

theorem writable_iff (i : Nat) : Writable i ↔ (12 ≤ i ∧ i < 36) ∨ (40 ≤ i ∧ i < 1040) := by
  have hlayout := layout
  unfold Writable
  omega

/-! ## The version -/

theorem version_fits_iff : (∃ k < versionStringLen + 8, ops.firmware[version + k]? = some 0) ↔
    ∃ s, loadString ops.firmware version = some s ∧ s.length < versionStringLen + 8 := by
  constructor
  · rintro ⟨k, hk, h⟩
    obtain ⟨s, hs, hle⟩ := loadString_exists h
    exact ⟨s, hs, by omega⟩
  · rintro ⟨s, hs, hlt⟩
    exact ⟨s.length, hlt, loadString_terminated hs⟩

theorem strcpy_safe_of_loadString {s : List UInt8} (hs : loadString ops.firmware version = some s) :
    Along (SafeEvent ops) (strcpy versAt version) (ops.blocks buffer) ↔
      s.length < versionStringLen + 8 := by
  have hfw : version + (s.length + 1) ≤ ops.firmware.length := by
    have := (List.getElem?_eq_some_iff.mp (loadString_terminated hs)).1
    omega
  unfold strcpy
  rw [along_bind (readString_run (h := ops.blocks buffer) (b := .firmware) hs), along_write]
  simp only [List.forall_mem_singleton, SafeEvent, hfw, true_and, writable_iff,
    List.length_append, List.length_singleton]
  have hlayout := layout
  constructor
  · intro h
    by_contra hge
    have := h 36 (by omega) (by omega)
    omega
  · intro hlt i h₁ h₂
    omega

theorem strcpy_unsafe_of_loadString (hs : loadString ops.firmware version = none) :
    ¬ Along (SafeEvent ops) (strcpy versAt version) (ops.blocks buffer) := by
  intro h
  have hrun : (readString .firmware version : OtaProg _) (ops.blocks buffer) =
      ([.read .firmware version (ops.firmware.length - version + 1)], none) :=
    readString_faults hs
  have hread := along_of_bind h (.read .firmware version (ops.firmware.length - version + 1))
    (by rw [hrun]; exact List.mem_singleton_self _)
  simp only [SafeEvent] at hread
  omega

/-- The copy of the version string is the one access of `get_version` that can go wrong. -/
theorem getVersion_safe (hlen : buffer.length = otaHeaderSize) (hsize : size ≤ otaHeaderSize) :
    Along (SafeEvent ops) (getVersion ops size) (ops.blocks buffer) ↔
      ∃ k < versionStringLen + 8, ops.firmware[version + k]? = some 0 := by
  rw [version_fits_iff]
  constructor
  · intro h
    have hcpy := along_of_bind h
    cases hs : loadString ops.firmware version with
    | none => exact absurd hcpy (strcpy_unsafe_of_loadString hs)
    | some s => exact ⟨s, rfl, (strcpy_safe_of_loadString hs).mp hcpy⟩
  · rintro ⟨s, hs, hlt⟩
    have hlayout := layout
    obtain ⟨b₁, h₁⟩ := store_exists buffer versAt (s ++ [0]) (by
      rw [hlen, List.length_append, List.length_singleton]
      omega)
    obtain ⟨b₂, h₂⟩ : ∃ b₂, storeWord b₁ fwFileSizeAt 4 ops.filesize = some b₂ :=
      store_exists _ _ _ (by rw [store_length h₁, leBytes_length]; omega)
    obtain ⟨b₃, h₃⟩ : ∃ b₃, storeWord b₂ pageSizeAt 4 pageSizeMax = some b₃ :=
      store_exists _ _ _ (by rw [store_length h₂, store_length h₁, leBytes_length]; omega)
    obtain ⟨bs, hbs⟩ := load_exists (m := b₃) (p := 0) (n := size) (by
      rw [store_length h₃, store_length h₂, store_length h₁]
      omega)
    have hcpy : Along (SafeEvent ops) (strcpy versAt version) (ops.blocks buffer) :=
      (strcpy_safe_of_loadString hs).mpr hlt
    unfold getVersion
    rw [along_bind (strcpy_run hs h₁), along_bind (writeField_run h₂),
      along_bind (writeField_run h₃), along_of_run (sendToClient_run hbs)]
    refine ⟨(along_of_run (strcpy_run hs h₁)).mp hcpy, ?_, ?_, ?_⟩
    · simp only [List.forall_mem_singleton, SafeEvent, writable_iff]
      omega
    · simp only [List.forall_mem_singleton, SafeEvent, writable_iff]
      omega
    · simp [SafeEvent]

/-! ## A page -/

/-- The copy of a page that lies in the image is safe when the page fits the message. -/
theorem copyPage_safe (hlen : buffer.length = otaHeaderSize)
    (hfw : offset + field buffer pageSizeAt ≤ ops.firmware.length) :
    Along (SafeEvent ops) (copyPage offset) (ops.blocks buffer) ↔
      field buffer pageSizeAt ≤ pageSizeMax := by
  have hlayout := layout
  obtain ⟨page, hpage⟩ := load_exists hfw
  have hplen := load_length hpage
  unfold copyPage
  rw [along_bind (readField_run (by omega)), along_bind (readPage_run hpage)]
  simp only [List.forall_mem_singleton, SafeEvent, hfw, true_and]
  constructor
  · intro h
    have hwrite := along_of_bind h (.write .data dataAt page.length) (List.mem_singleton_self _)
    simp only [SafeEvent, writable_iff, hplen] at hwrite
    by_contra hgt
    have := hwrite 1040 (by omega) (by omega)
    omega
  · intro hle
    obtain ⟨b₁, h₁⟩ := store_exists buffer dataAt page (by omega)
    have hf₁ : field b₁ pageSizeAt = field buffer pageSizeAt :=
      field_store_frame h₁ (by omega) (.inl (by omega))
    have hlen₁ : b₁.length = otaHeaderSize := by rw [store_length h₁, hlen]
    obtain ⟨bs, hbs⟩ := load_exists (m := b₁) (p := 0) (n := field b₁ pageSizeAt + headerLen)
      (by omega)
    rw [along_bind (writeData_run h₁), along_bind (readField_run (by omega)),
      along_of_run (sendToClient_run hbs)]
    refine ⟨?_, by simp [SafeEvent], by simp [SafeEvent]⟩
    simp only [List.forall_mem_singleton, SafeEvent, writable_iff]
    omega

theorem getNextPage_safe (hlen : buffer.length = otaHeaderSize) :
    Along (SafeEvent ops) (getNextPage ops) (ops.blocks buffer) ↔
      (let offset := wrap 32 (field buffer pageSizeAt * field buffer pageNumAt)
      offset < ops.filesize →
        min (field buffer pageSizeAt) (ops.filesize - offset) ≤ pageSizeMax) := by
  have hlayout := layout
  unfold getNextPage
  rw [along_bind (readField_run (by omega)), along_bind (readField_run (by omega))]
  simp only [List.forall_mem_singleton, SafeEvent, true_and]
  generalize wrap 32 (field buffer pageSizeAt * field buffer pageNumAt) = offset
  split
  · rename_i hge
    exact ⟨fun _ hlt => absurd hlt (Nat.not_lt.mpr hge), fun _ => along_pure⟩
  · rename_i hlt
    have hlt : offset < ops.filesize := Nat.lt_of_not_le hlt
    have hfs := ops.filesize_lt
    rw [unsigned_left ops hlt]
    have hleft : ops.filesize - offset < 2 ^ 32 := by omega
    obtain ⟨log, b₁, hrun, hlog, hlen₁, hf₁⟩ := clampPage_run ops hlen hleft
    rw [along_bind hrun, copyPage_safe hlen₁ (by rw [hf₁, ← ops.filesize_eq]; omega), hf₁,
      Nat.min_comm]
    constructor
    · rintro ⟨_, h⟩ _
      exact h
    · intro h
      refine ⟨fun e he => ?_, h hlt⟩
      rw [hlog e he]
      simp only [SafeEvent, writable_iff]
      omega

/-! ## The request -/

theorem dispatch_safe (hlen : buffer.length = otaHeaderSize) (hsize : headerLen ≤ size) :
    Along (SafeEvent ops) (handler ops size) (ops.blocks buffer) ↔
      (field buffer magicWordAt = ops.magicWord →
        (field buffer cmdAt = cmdGetLatestVersion →
          Along (SafeEvent ops) (getVersion ops size) (ops.blocks buffer)) ∧
        (field buffer cmdAt = cmdGetPageData →
          Along (SafeEvent ops) (getNextPage ops) (ops.blocks buffer))) := by
  have hne : cmdGetLatestVersion ≠ cmdGetPageData := by decide
  have hlayout := layout
  unfold handler
  rw [if_neg (Nat.not_lt.mpr hsize), along_bind (readField_run (by omega))]
  simp only [List.forall_mem_singleton, SafeEvent, true_and]
  by_cases hmagic : field buffer magicWordAt = ops.magicWord
  · rw [if_neg (not_not.mpr hmagic), along_bind (readField_run (by omega))]
    simp only [List.forall_mem_singleton, SafeEvent, true_and, hmagic, true_imp_iff]
    by_cases hver : field buffer cmdAt = cmdGetLatestVersion
    · simp only [hver, if_true, true_imp_iff, hne, false_imp_iff, and_true]
      exact along_then_pure
    · rw [if_neg hver]
      by_cases hpage : field buffer cmdAt = cmdGetPageData
      · simp only [hpage, if_true, true_imp_iff, hne.symm, false_imp_iff, true_and]
        exact along_then_pure
      · simp only [hver, hpage, if_false, false_imp_iff, and_true, iff_true]
        exact along_pure
  · simp only [hmagic, ne_eq, not_false_eq_true, if_true, false_imp_iff, iff_true]
    exact along_pure

/-- **Memory safety on requests.** Every access of `handler` is in place exactly when what
the request asks for fits. -/
theorem memory_safe_iff_fits (ops : OtaOps) (r : Request) : MemorySafe ops r ↔ Fits ops r := by
  unfold MemorySafe Fits
  rw [dispatch_safe r.buffer_length r.le_size, getVersion_safe r.buffer_length r.size_le,
    getNextPage_safe r.buffer_length]

/-- A server with an image of 2000 bytes. -/
def largeImage : OtaOps where
  magicWord := 0xDEADBEEF
  firmware := List.replicate 2000 1
  filesize := 2000
  filesize_eq := (List.length_replicate ..).symm
  filesize_lt := by decide

/-- A request for a page of 1001 bytes. -/
def longPageRequest : Request where
  buffer := pageRequest 0xDEADBEEF 0 1001 0 ++ List.replicate 1000 0
  size := 40
  buffer_length := by rw [List.length_append, List.length_replicate]; rfl
  le_size := Nat.le_refl _
  size_le := by decide

/-- The page is copied over the end of the buffer. -/
theorem long_page_unsafe : ¬ ∀ ops r, MemorySafe ops r := by
  intro h
  have hsafe := h largeImage longPageRequest
  unfold MemorySafe at hsafe
  rw [dispatch_safe longPageRequest.buffer_length longPageRequest.le_size] at hsafe
  have hpage := (hsafe (by decide)).2 (by decide)
  rw [getNextPage_safe longPageRequest.buffer_length] at hpage
  revert hpage
  decide

end MyLibraries.Ota
