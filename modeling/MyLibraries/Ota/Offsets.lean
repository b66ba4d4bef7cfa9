import MyLibraries.Ota.Download

/-!
# The contents of a page

`get_next_page` multiplies the page size and the page number in 32 bits. When the product
wraps to an offset in the image, a page from there is sent for a page that the image does
not have (`page_sent_iff`).
-/

namespace MyLibraries.Ota

open Memory Access

/-- What is sent for the page from `offset` on, of `pageSize` bytes: its bytes as far as the
image has them, if the image has any. -/
structure Sends (ops : OtaOps) (pageSize offset : Nat) (sent : List (List UInt8)) : Prop where
  contents : ∀ reply ∈ sent, payload reply =
    (ops.firmware.drop offset).take (min pageSize (ops.filesize - offset))
  answered : sent ≠ [] ↔ offset < ops.filesize

/-- A request for a page that fits a message. -/
structure AsksForPage (ops : OtaOps) (r : Request) : Prop where
  magicWord : field r.buffer magicWordAt = ops.magicWord
  cmd : field r.buffer cmdAt = cmdGetPageData
  pageSize_le : field r.buffer pageSizeAt ≤ pageSizeMax

/-- Where the page begins that a request asks for. -/
def Request.offset (r : Request) : Nat := field r.buffer pageSizeAt * field r.buffer pageNumAt

variable {ops : OtaOps} {r : Request} {sent : List (List UInt8)}

/-- The page that is sent begins at the offset in 32 bits. -/
theorem page_sent (h : AsksForPage ops r) :
    ∃ sent buffer', Yields (handler ops r.size) (ops.blocks r.buffer) sent 0
        (ops.blocks buffer') ∧
      Sends ops (field r.buffer pageSizeAt) (wrap 32 r.offset) sent := by
  by_cases hlt : wrap 32 r.offset < ops.filesize
  · have hfit := Nat.le_trans
      (Nat.min_le_right (ops.filesize - wrap 32 r.offset) (field r.buffer pageSizeAt)) h.pageSize_le
    obtain ⟨buffer', reply, hsend, -, -, hpayload⟩ :=
      getNextPage_sends r.buffer_length rfl hlt rfl hfit
    refine ⟨[reply], buffer',
      handler_page r.buffer_length r.le_size h.magicWord h.cmd hsend, ?_, ?_⟩
    · intro reply' hreply
      rw [List.mem_singleton.mp hreply, hpayload, Nat.min_comm]
      rfl
    · exact iff_of_true (List.cons_ne_nil _ _) hlt
  · have hsilent := getNextPage_silent r.buffer_length (Nat.le_of_not_lt hlt)
    refine ⟨[], r.buffer, handler_page r.buffer_length r.le_size h.magicWord h.cmd hsilent, ?_, ?_⟩
    · intro reply hreply
      cases hreply
    · exact iff_of_false (fun hne => hne rfl) hlt

/-- The right page is sent for an offset that wraps only if it wraps behind the image. -/
theorem sends_of_wrap (h : Sends ops n (wrap 32 r.offset) sent) :
    Sends ops n r.offset sent ↔ r.offset < 2 ^ 32 ∨ ops.filesize ≤ wrap 32 r.offset := by
  have hfs := ops.filesize_lt
  by_cases hlt : r.offset < 2 ^ 32
  · rw [wrap_of_lt hlt] at h
    exact iff_of_true h (.inl hlt)
  · by_cases hin : ops.filesize ≤ wrap 32 r.offset
    · have hnil : sent = [] := by
        by_contra hne
        exact Nat.not_lt.mpr hin (h.answered.mp hne)
      subst hnil
      refine iff_of_true ⟨fun reply hreply => ?_, ?_⟩ (.inr hin)
      · cases hreply
      · exact iff_of_false (fun hne => hne rfl) (by omega)
    · refine iff_of_false (fun hsends => ?_) (by omega)
      have hsent := h.answered.mpr (Nat.lt_of_not_le hin)
      have := hsends.answered.mp hsent
      omega

/-- **The contents of a page.** A request for any page is answered with its bytes, or not at
all when it lies behind the image, exactly if its offset fits 32 bits or wraps to one behind
the image. -/
theorem page_sent_iff (ops : OtaOps) (r : Request) (h : AsksForPage ops r) :
    ∃ sent buffer', Yields (handler ops r.size) (ops.blocks r.buffer) sent 0
        (ops.blocks buffer') ∧
      (Sends ops (field r.buffer pageSizeAt) r.offset sent ↔
        r.offset < 2 ^ 32 ∨ ops.filesize ≤ wrap 32 r.offset) := by
  obtain ⟨sent, buffer', hrun, hsends⟩ := page_sent h
  exact ⟨sent, buffer', hrun, sends_of_wrap hsends⟩

/-- A request for a page, in a buffer that held zeros. -/
def requestFor (pageSize pageNum : Nat) : Request where
  buffer := pageRequest 0xDEADBEEF 0 pageSize pageNum ++ List.replicate 1000 0
  size := headerLen
  buffer_length := by
    rw [List.length_append, List.length_replicate]
    rfl
  le_size := Nat.le_refl headerLen
  size_le := by decide

/-- The second page of an image of 1500 bytes. -/
theorem page_sent_second : ∃ sent buffer',
    Yields (handler smallImage 40) (smallImage.blocks (requestFor 1000 1).buffer) sent 0
        (smallImage.blocks buffer') ∧
      Sends smallImage 1000 1000 sent := by
  obtain ⟨sent, buffer', hrun, hiff⟩ := page_sent_iff smallImage (requestFor 1000 1)
    ⟨by decide, by decide, by decide⟩
  exact ⟨sent, buffer', hrun, hiff.mpr (.inl (by decide))⟩

/-- The page `2 ^ 23` of 512 bytes each: it would begin at `2 ^ 32`, and the first page is
sent. -/
theorem first_page_again : ∃ sent buffer',
    Yields (handler smallImage 40) (smallImage.blocks (requestFor 512 (2 ^ 23)).buffer) sent 0
        (smallImage.blocks buffer') ∧
      (requestFor 512 (2 ^ 23)).offset = 2 ^ 32 ∧
      Sends smallImage 512 0 sent ∧ sent ≠ [] ∧ ¬Sends smallImage 512 (2 ^ 32) sent := by
  have hasks : AsksForPage smallImage (requestFor 512 (2 ^ 23)) :=
    ⟨by decide, by decide, by decide⟩
  obtain ⟨sent, buffer', hrun, hsends⟩ := page_sent hasks
  have hoffset : (requestFor 512 (2 ^ 23)).offset = 2 ^ 32 := by decide
  have hsize : field (requestFor 512 (2 ^ 23)).buffer pageSizeAt = 512 := by decide
  rw [hoffset, hsize] at hsends
  have hsent : sent ≠ [] := hsends.answered.mpr (by decide)
  refine ⟨sent, buffer', hrun, hoffset, hsends, hsent, fun h => ?_⟩
  exact absurd (h.answered.mp hsent) (by decide)

end MyLibraries.Ota
