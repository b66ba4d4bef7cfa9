import MyLibraries.Ota.Model

/-!
# The accesses of the firmware server

The fields of the buffer under its stores, and what each access of `handler` does when it
is inside of its block.
-/

namespace MyLibraries.Ota

open Memory Access

variable {ops : OtaOps} {buffer buffer' : Mem} {p q w n offset left pageSize size : Nat}
  {bs : List UInt8}

/-! ## The layout in numbers -/

theorem layout : magicWordAt = 0 ∧ cmdAt = 4 ∧ versAt = 12 ∧ versionStringLen = 16 ∧
    fwFileSizeAt = 28 ∧ pageSizeAt = 32 ∧ pageNumAt = 36 ∧ dataAt = 40 ∧ headerLen = 40 ∧
    pageSizeMax = 1000 ∧ otaHeaderSize = 1040 := by decide

/-! ## The fields of the buffer -/

theorem field_eq_of_loadWord (h : loadWord buffer p 4 = some w) : field buffer p = w := by
  obtain ⟨bs, hbs, rfl⟩ := Option.map_eq_some_iff.mp h
  unfold load at hbs
  split at hbs
  · cases hbs
    rfl
  · cases hbs

theorem loadWord_field (hp : p + 4 ≤ buffer.length) :
    loadWord buffer p 4 = some (field buffer p) := by
  obtain ⟨w, hw⟩ := loadWord_exists hp
  rw [hw, field_eq_of_loadWord hw]

theorem field_storeWord (h : storeWord buffer p 4 w = some buffer') (hw : w < 2 ^ 32) :
    field buffer' p = w :=
  field_eq_of_loadWord (loadWord_of_at (at_of_store h) (by simpa using hw))

/-- A store changes no field outside of it. -/
theorem field_store_frame (h : store buffer p bs = some buffer') (hq : q + 4 ≤ buffer.length)
    (hd : q + 4 ≤ p ∨ p + bs.length ≤ q) : field buffer' q = field buffer q := by
  have hat := at_of_loadWord (loadWord_field hq)
  have hat' := (at_store_frame h (by rw [leBytes_length]; exact hd)).mpr hat
  exact field_eq_of_loadWord (loadWord_of_at hat' (loadWord_lt (loadWord_field hq)))

theorem update_blocks :
    Function.update (ops.blocks buffer) Block.data buffer' = ops.blocks buffer' := by
  funext b
  cases b with
  | firmware => exact Function.update_of_ne (by decide) ..
  | data => exact Function.update_self ..

/-! ## One access at a time -/

theorem readField_run (hp : p + 4 ≤ buffer.length) :
    (readWord .data p 4 : OtaProg _) (ops.blocks buffer) =
      ([.read .data p 4], some (field buffer p, ops.blocks buffer)) :=
  readWord_run (loadWord_field hp)

theorem readPage_run (h : load ops.firmware p n = some bs) :
    (Access.read .firmware p n : OtaProg _) (ops.blocks buffer) =
      ([.read .firmware p n], some (bs, ops.blocks buffer)) :=
  read_run h

theorem writeData_run (h : store buffer p bs = some buffer') :
    (write .data p bs : OtaProg _) (ops.blocks buffer) =
      ([.write .data p bs.length], some ((), ops.blocks buffer')) := by
  rw [write_run (h := ops.blocks buffer) (b := .data) h, update_blocks]

theorem writeField_run (h : storeWord buffer p 4 w = some buffer') :
    (writeWord .data p 4 w : OtaProg _) (ops.blocks buffer) =
      ([.write .data p 4], some ((), ops.blocks buffer')) := by
  rw [writeWord, writeData_run h, leBytes_length]

theorem sendToClient_run (h : load buffer 0 size = some bs) :
    sendToClient size (ops.blocks buffer) =
      ([.read .data 0 size, .output bs], some ((), ops.blocks buffer)) := by
  unfold sendToClient
  rw [bind_of_some (read_run h), output_run]
  rfl

/-! ## The copies -/

theorem strcpy_run {s : List UInt8} (hs : loadString ops.firmware q = some s)
    (h : store buffer p (s ++ [0]) = some buffer') :
    strcpy p q (ops.blocks buffer) =
      ([.read .firmware q (s.length + 1), .write .data p (s.length + 1)],
        some ((), ops.blocks buffer')) := by
  unfold strcpy
  rw [bind_of_some (readString_run (h := ops.blocks buffer) (b := .firmware) hs),
    writeData_run h, List.length_append, List.length_singleton]
  rfl

/-! ## The clamp -/

theorem unsigned_left (ops : OtaOps) (h : offset < ops.filesize) :
    wrap 32 (2 ^ 32 + ops.filesize - offset) = ops.filesize - offset := by
  have hlt := ops.filesize_lt
  rw [Nat.add_sub_assoc (by omega), wrap, Nat.add_mod_left, Nat.mod_eq_of_lt (by omega)]

/-- After the clamp the field holds the smaller of the two sizes, and only that field has
changed. -/
theorem clampPage_run (ops : OtaOps) (hlen : buffer.length = otaHeaderSize)
    (hleft : left < 2 ^ 32) :
    ∃ log buffer', clampPage left (field buffer pageSizeAt) (ops.blocks buffer) =
        (log, some ((), ops.blocks buffer')) ∧
      (∀ e ∈ log, e = .write .data pageSizeAt 4) ∧ buffer'.length = otaHeaderSize ∧
      field buffer' pageSizeAt = min left (field buffer pageSizeAt) := by
  unfold clampPage
  split
  · rename_i hlt
    obtain ⟨buffer', hst⟩ : ∃ buffer', storeWord buffer pageSizeAt 4 left = some buffer' :=
      store_exists _ _ _ (by rw [hlen, leBytes_length]; decide)
    refine ⟨_, buffer', writeField_run hst, by simp, by rw [store_length hst, hlen], ?_⟩
    rw [field_storeWord hst hleft, Nat.min_eq_left (Nat.le_of_lt hlt)]
  · rename_i hge
    exact ⟨[], buffer, rfl, by simp, hlen, by rw [Nat.min_eq_right (Nat.le_of_not_lt hge)]⟩

end MyLibraries.Ota
