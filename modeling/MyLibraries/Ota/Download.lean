import MyLibraries.Ota.Steps

/-!
# The download of an image

A client asks for the pages of an image one after the other. Each request is answered with
the page it names, or not at all when the image ends before it, and the pages together are
the image.
-/

namespace MyLibraries.Ota

open Memory Access

/-! ## Requests and replies -/

/-- A request for the page `n`, with pages of `OTA_PAGE_SIZE` bytes. Its other fields, and
what follows the header, are arbitrary. -/
structure IsPageRequest (ops : OtaOps) (n : Nat) (bytes : List UInt8) : Prop where
  le_length : headerLen ≤ bytes.length
  length_le : bytes.length ≤ otaHeaderSize
  magicWord : field bytes magicWordAt = ops.magicWord
  cmd : field bytes cmdAt = cmdGetPageData
  pageSize : field bytes pageSizeAt = pageSizeMax
  pageNum : field bytes pageNumAt = n

/-- The data of a reply, cut to its `page_size`. -/
def payload (reply : List UInt8) : List UInt8 := (reply.drop dataAt).take (field reply pageSizeAt)

/-- The `n`th page of the image. -/
def page (ops : OtaOps) (n : Nat) : List UInt8 :=
  (ops.firmware.drop (pageSizeMax * n)).take pageSizeMax

/-- How many pages the image has. -/
def pageCount (ops : OtaOps) : Nat := (ops.filesize + (pageSizeMax - 1)) / pageSizeMax

/-- What is sent for a request for the page `n`: the page when the image has it, full
unless it is the last one, and nothing otherwise. -/
structure Answered (ops : OtaOps) (n : Nat) (sent : List (List UInt8)) : Prop where
  reply : n < pageCount ops → ∃ reply, sent = [reply] ∧ payload reply = page ops n
  full : n + 1 < pageCount ops → ∀ reply ∈ sent, field reply pageSizeAt = pageSizeMax ∧
    (payload reply).length = pageSizeMax
  last : n + 1 = pageCount ops → ∀ reply ∈ sent, 1 ≤ (payload reply).length ∧
    (payload reply).length = field reply pageSizeAt ∧ (payload reply).length ≤ pageSizeMax
  behind : pageCount ops ≤ n → sent = []

variable {ops : OtaOps} {buffer buffer' : Mem} {bytes : List UInt8} {p n size offset : Nat}
  {sent : List (List UInt8)}

/-! ## One request -/

theorem receive_field (h : receive buffer bytes = some buffer') (hp : p + 4 ≤ bytes.length) :
    field buffer' p = field bytes p := by
  unfold receive store at h
  split at h
  · cases h
    unfold field
    rw [List.take_zero, List.nil_append, List.drop_append_of_le_length (by omega),
      List.take_append_of_le_length (by rw [List.length_drop]; omega)]
  · cases h

/-- The payload of the front of a buffer is the page that was copied behind its header. -/
theorem payload_of_load {msg pg : List UInt8}
    (hmsg : load buffer 0 (pg.length + headerLen) = some msg) (hpg : At buffer dataAt pg)
    (hsize : field buffer pageSizeAt = pg.length) :
    field msg pageSizeAt = pg.length ∧ payload msg = pg := by
  have hlayout := layout
  unfold At load at hpg
  unfold load at hmsg
  split at hmsg
  · rw [if_pos (by omega)] at hpg
    cases hmsg
    have hdrop : ∀ k, (List.take (pg.length + headerLen) (List.drop 0 buffer)).drop k =
        (buffer.drop k).take (pg.length + headerLen - k) := fun k => by
      rw [List.drop_zero, List.drop_take]
    have hfield : field (List.take (pg.length + headerLen) (List.drop 0 buffer)) pageSizeAt =
        pg.length := by
      unfold field at hsize ⊢
      rw [hdrop, List.take_take, Nat.min_eq_left (by omega), hsize]
    refine ⟨hfield, ?_⟩
    unfold payload
    rw [hfield, hdrop, List.take_take, Nat.min_eq_left (by omega)]
    exact Option.some.inj hpg
  · cases hmsg

/-- A page that fits is copied and sent. -/
theorem copyPage_sends (hlen : buffer.length = otaHeaderSize)
    (hfw : offset + field buffer pageSizeAt ≤ ops.firmware.length)
    (hfit : field buffer pageSizeAt ≤ pageSizeMax) :
    ∃ buffer' reply, Yields (copyPage offset) (ops.blocks buffer) [reply] () (ops.blocks buffer') ∧
      buffer'.length = otaHeaderSize ∧ field reply pageSizeAt = field buffer pageSizeAt ∧
      payload reply = (ops.firmware.drop offset).take (field buffer pageSizeAt) := by
  have hlayout := layout
  have hpage : load ops.firmware offset (field buffer pageSizeAt) =
      some ((ops.firmware.drop offset).take (field buffer pageSizeAt)) := if_pos hfw
  generalize (ops.firmware.drop offset).take (field buffer pageSizeAt) = pg at hpage
  have hplen := load_length hpage
  obtain ⟨b₁, h₁⟩ := store_exists buffer dataAt pg (by omega)
  have hf₁ : field b₁ pageSizeAt = field buffer pageSizeAt :=
    field_store_frame h₁ (by omega) (.inl (by omega))
  have hlen₁ : b₁.length = otaHeaderSize := by rw [store_length h₁, hlen]
  obtain ⟨msg, hmsg⟩ := load_exists (m := b₁) (p := 0) (n := field b₁ pageSizeAt + headerLen)
    (by omega)
  obtain ⟨hfield, hpayload⟩ := payload_of_load (by rw [hplen, ← hf₁]; exact hmsg)
    (at_of_store h₁) (by rw [hf₁, hplen])
  refine ⟨b₁, msg, ?_, hlen₁, by rw [hfield, hplen], hpayload⟩
  unfold copyPage
  refine yields_bind_silent (readField_run (by omega)) rfl ?_
  refine yields_bind_silent (readPage_run hpage) rfl ?_
  refine yields_bind_silent (writeData_run h₁) rfl ?_
  refine yields_bind_silent (readField_run (by omega)) rfl ?_
  exact yields_of_run (sendToClient_run hmsg)

/-- A request for a page that begins in the image and fits a message. -/
theorem getNextPage_sends (hlen : buffer.length = otaHeaderSize)
    (hoff : wrap 32 (field buffer pageSizeAt * field buffer pageNumAt) = offset)
    (hlt : offset < ops.filesize)
    (hn : min (ops.filesize - offset) (field buffer pageSizeAt) = n) (hfit : n ≤ pageSizeMax) :
    ∃ buffer' reply, Yields (getNextPage ops) (ops.blocks buffer) [reply] () (ops.blocks buffer') ∧
      buffer'.length = otaHeaderSize ∧ field reply pageSizeAt = n ∧
      payload reply = (ops.firmware.drop offset).take n := by
  have hlayout := layout
  have hfs := ops.filesize_lt
  have hfw := ops.filesize_eq
  have hleft : ops.filesize - offset < 2 ^ 32 := by omega
  obtain ⟨log, b₁, hrun, hlog, hlen₁, hf₁⟩ :=
    clampPage_run ops hlen hleft
  rw [hn] at hf₁
  have hin : offset + field b₁ pageSizeAt ≤ ops.firmware.length := by omega
  obtain ⟨b₂, reply, hcopy, hlen₂, hfield, hpayload⟩ := copyPage_sends hlen₁ hin (by omega)
  rw [hf₁] at hfield hpayload
  refine ⟨b₂, reply, ?_, hlen₂, hfield, hpayload⟩
  unfold getNextPage
  refine yields_bind_silent (readField_run (by omega)) rfl ?_
  refine yields_bind_silent (readField_run (by omega)) rfl ?_
  simp only [hoff]
  rw [if_neg (Nat.not_le.mpr hlt), unsigned_left ops hlt]
  refine yields_bind_silent hrun ?_ hcopy
  exact List.filterMap_eq_nil_iff.mpr fun e he => by rw [hlog e he]

/-- A request for a page behind the image. -/
theorem getNextPage_silent (hlen : buffer.length = otaHeaderSize)
    (hge : ops.filesize ≤ wrap 32 (field buffer pageSizeAt * field buffer pageNumAt)) :
    Yields (getNextPage ops) (ops.blocks buffer) [] () (ops.blocks buffer) := by
  have hlayout := layout
  unfold getNextPage
  refine yields_bind_silent (readField_run (by omega)) rfl ?_
  refine yields_bind_silent (readField_run (by omega)) rfl ?_
  simp only [hge, if_true]
  exact yields_pure

/-- `handler` takes a request for a page to `get_next_page`. -/
theorem handler_page (hlen : buffer.length = otaHeaderSize) (hsize : headerLen ≤ size)
    (hmagic : field buffer magicWordAt = ops.magicWord)
    (hcmd : field buffer cmdAt = cmdGetPageData) {h' : Blocks Block}
    (hnext : Yields (getNextPage ops) (ops.blocks buffer) sent () h') :
    Yields (handler ops size) (ops.blocks buffer) sent 0 h' := by
  have hlayout := layout
  have hne : cmdGetPageData ≠ cmdGetLatestVersion := by decide
  unfold handler
  rw [if_neg (Nat.not_lt.mpr hsize)]
  refine yields_bind_silent (readField_run (by omega)) rfl ?_
  rw [if_neg (not_not.mpr hmagic)]
  refine yields_bind_silent (readField_run (by omega)) rfl ?_
  simp only [hcmd, hne, if_false, if_true]
  have hb := yields_bind (f := fun _ => pure (0 : Int)) hnext yields_pure
  rwa [List.append_nil] at hb

/-! ## The pages -/

theorem page_length (ops : OtaOps) (n : Nat) :
    (page ops n).length = min (ops.filesize - pageSizeMax * n) pageSizeMax := by
  rw [page, List.length_take, List.length_drop, ← ops.filesize_eq, Nat.min_comm]

theorem lt_pageCount_iff : n < pageCount ops ↔ pageSizeMax * n < ops.filesize := by
  have hpm : pageSizeMax = 1000 := rfl
  unfold pageCount
  rw [hpm]
  omega

theorem page_length_of_full (h : n + 1 < pageCount ops) :
    (page ops n).length = pageSizeMax := by
  have hpm : pageSizeMax = 1000 := rfl
  have hlt := lt_pageCount_iff.mp h
  rw [hpm] at hlt
  rw [page_length, hpm]
  omega

theorem page_length_of_last (h : n + 1 = pageCount ops) :
    1 ≤ (page ops n).length ∧ (page ops n).length ≤ pageSizeMax := by
  have hpm : pageSizeMax = 1000 := rfl
  have hlt : pageSizeMax * n < ops.filesize := lt_pageCount_iff.mp (by omega)
  rw [page_length]
  omega

theorem page_of_reply : (ops.firmware.drop (pageSizeMax * n)).take
    (min (ops.filesize - pageSizeMax * n) pageSizeMax) = page ops n := by
  unfold page
  by_cases hle : ops.filesize - pageSizeMax * n ≤ pageSizeMax
  · rw [Nat.min_eq_left hle, List.take_of_length_le, List.take_of_length_le] <;>
      rw [List.length_drop, ← ops.filesize_eq]
    exact hle
  · rw [Nat.min_eq_right (by omega)]

theorem answered_of_reply {reply : List UInt8} (hlt : n < pageCount ops)
    (hfield : field reply pageSizeAt = (page ops n).length) (hpage : payload reply = page ops n) :
    Answered ops n [reply] := by
  constructor
  · exact fun _ => ⟨reply, rfl, hpage⟩
  · intro h r hr
    rw [List.mem_singleton.mp hr, hfield, hpage]
    exact ⟨page_length_of_full h, page_length_of_full h⟩
  · intro h r hr
    rw [List.mem_singleton.mp hr, hfield, hpage]
    exact ⟨(page_length_of_last h).1, rfl, (page_length_of_last h).2⟩
  · exact fun h => absurd hlt (Nat.not_lt.mpr h)

theorem answered_of_silent (hge : pageCount ops ≤ n) : Answered ops n [] := by
  constructor
  · exact fun h => absurd h (Nat.not_lt.mpr hge)
  · exact fun _ r hr => absurd hr List.not_mem_nil
  · exact fun _ r hr => absurd hr List.not_mem_nil
  · exact fun _ => rfl

theorem payload_of_answered (h : Answered ops n sent) : sent.flatMap payload = page ops n := by
  by_cases hlt : n < pageCount ops
  · obtain ⟨reply, rfl, hpage⟩ := h.reply hlt
    rw [List.flatMap_singleton, hpage]
  · have hge := mt lt_pageCount_iff.mpr hlt
    have hfs := ops.filesize_eq
    rw [h.behind (Nat.le_of_not_lt hlt), page, List.drop_of_length_le (by omega)]
    rfl

/-- A request for a page is answered with it, whatever the buffer held. -/
theorem page_answered (hlen : buffer.length = otaHeaderSize) (hreq : IsPageRequest ops n bytes)
    (hn : pageSizeMax * n < 2 ^ 32) :
    ∃ b₁ b₂ sent, receive buffer bytes = some b₁ ∧
      Yields (handler ops bytes.length) (ops.blocks b₁) sent 0 (ops.blocks b₂) ∧
      b₂.length = otaHeaderSize ∧ Answered ops n sent := by
  have hlayout := layout
  have hle := hreq.le_length
  obtain ⟨b₁, h₁⟩ := store_exists buffer 0 bytes (by have := hreq.length_le; omega)
  have hlen₁ : b₁.length = otaHeaderSize := by rw [store_length h₁, hlen]
  have hmagic : field b₁ magicWordAt = ops.magicWord := by
    rw [receive_field h₁ (by omega), hreq.magicWord]
  have hcmd : field b₁ cmdAt = cmdGetPageData := by
    rw [receive_field h₁ (by omega), hreq.cmd]
  have hsize : field b₁ pageSizeAt = pageSizeMax := by
    rw [receive_field h₁ (by omega), hreq.pageSize]
  have hnum : field b₁ pageNumAt = n := by rw [receive_field h₁ (by omega), hreq.pageNum]
  have hoff : wrap 32 (field b₁ pageSizeAt * field b₁ pageNumAt) = pageSizeMax * n := by
    rw [hsize, hnum, wrap_of_lt hn]
  by_cases hlt : pageSizeMax * n < ops.filesize
  · obtain ⟨b₂, reply, hsend, hlen₂, hfield, hpayload⟩ :=
      getNextPage_sends hlen₁ hoff hlt rfl (by rw [hsize]; exact Nat.min_le_right ..)
    rw [hsize] at hfield hpayload
    exact ⟨b₁, b₂, [reply], h₁, handler_page hlen₁ hle hmagic hcmd hsend, hlen₂,
      answered_of_reply (lt_pageCount_iff.mpr hlt) (by rw [hfield, page_length])
        (by rw [hpayload, page_of_reply])⟩
  · have hge : ops.filesize ≤ wrap 32 (field b₁ pageSizeAt * field b₁ pageNumAt) := by
      rw [hoff]
      omega
    have hsilent := getNextPage_silent hlen₁ hge
    exact ⟨b₁, b₁, [], h₁, handler_page hlen₁ hle hmagic hcmd hsilent, hlen₁,
      answered_of_silent (Nat.le_of_not_lt (mt lt_pageCount_iff.mp hlt))⟩

/-! ## The session -/

theorem serve_cons {rest : List (List UInt8)} {replies : List (List (List UInt8))}
    (h₁ : receive buffer bytes = some buffer') {b₂ : Mem}
    (h₂ : Yields (handler ops bytes.length) (ops.blocks buffer') sent 0 (ops.blocks b₂))
    (h₃ : serve ops b₂ rest = some replies) :
    serve ops buffer (bytes :: rest) = some (sent :: replies) := by
  obtain ⟨log, r, hrun⟩ : ∃ log r, handler ops bytes.length (ops.blocks buffer') = (log, r) :=
    ⟨_, _, rfl⟩
  unfold Yields at h₂
  rw [hrun] at h₂
  obtain ⟨rfl, rfl⟩ := h₂
  unfold serve
  simp only [Option.bind_eq_bind]
  rw [h₁, some_bind, hrun]
  show ((serve ops b₂ rest).bind _) = _
  rw [h₃]
  rfl

theorem serve_answers {nums : List Nat} {reqs : List (List UInt8)}
    (hreqs : List.Forall₂ (IsPageRequest ops) nums reqs) (hlen : buffer.length = otaHeaderSize)
    (hnums : ∀ n ∈ nums, pageSizeMax * n < 2 ^ 32) :
    ∃ replies, serve ops buffer reqs = some replies ∧ List.Forall₂ (Answered ops) nums replies := by
  induction hreqs generalizing buffer with
  | nil => exact ⟨[], rfl, .nil⟩
  | cons hreq _ ih =>
    rw [List.forall_mem_cons] at hnums
    obtain ⟨b₁, b₂, sent, h₁, h₂, hlen₂, hsent⟩ := page_answered hlen hreq hnums.1
    obtain ⟨replies, h₃, hall⟩ := ih hlen₂ hnums.2
    exact ⟨sent :: replies, serve_cons h₁ h₂ h₃, .cons hsent hall⟩

theorem payload_of_replies {nums : List Nat} {replies : List (List (List UInt8))}
    (h : List.Forall₂ (Answered ops) nums replies) :
    replies.flatten.flatMap payload = nums.flatMap (page ops) := by
  induction h with
  | nil => rfl
  | cons hsent _ ih =>
    rw [List.flatten_cons, List.flatMap_append, payload_of_answered hsent, ih,
      List.flatMap_cons]

/-- The first pages are the front of the image. -/
theorem pages_range (ops : OtaOps) (k : Nat) :
    (List.range k).flatMap (page ops) = ops.firmware.take (pageSizeMax * k) := by
  induction k with
  | zero => rfl
  | succ k ih =>
    rw [List.range_succ, List.flatMap_append, ih, List.flatMap_singleton, page,
      Nat.mul_succ, List.take_add]

/-- **The download reconstructs the image.** A session of requests for any pages whose
offsets fit 32 bits is answered request by request, and the pages `0, 1, 2, …` up to the
last one or beyond are together the image. -/
theorem download {nums : List Nat} {reqs : List (List UInt8)}
    (hreqs : List.Forall₂ (IsPageRequest ops) nums reqs) (hlen : buffer.length = otaHeaderSize)
    (hnums : ∀ n ∈ nums, pageSizeMax * n < 2 ^ 32) :
    ∃ replies, serve ops buffer reqs = some replies ∧ List.Forall₂ (Answered ops) nums replies ∧
      ∀ k, pageCount ops ≤ k → nums = List.range k →
        replies.flatten.flatMap payload = ops.firmware := by
  obtain ⟨replies, hserve, hall⟩ := serve_answers hreqs hlen hnums
  refine ⟨replies, hserve, hall, fun k hk hrange => ?_⟩
  have hfit : ops.filesize ≤ pageSizeMax * k :=
    Nat.le_of_not_lt fun h => Nat.not_lt.mpr hk (lt_pageCount_iff.mpr h)
  rw [payload_of_replies hall, hrange, pages_range, List.take_of_length_le]
  rw [← ops.filesize_eq]
  exact hfit

/-- A server with an image of one page and a half. -/
def smallImage : OtaOps where
  magicWord := 0xDEADBEEF
  firmware := List.replicate 1500 1
  filesize := 1500
  filesize_eq := (List.length_replicate ..).symm
  filesize_lt := by decide

theorem isPageRequest_smallImage (k : Fin 3) :
    IsPageRequest smallImage k (pageRequest 0xDEADBEEF 0 pageSizeMax k) := by
  revert k
  have h : ∀ k : Fin 3, let bytes := pageRequest 0xDEADBEEF 0 pageSizeMax k
      bytes.length = headerLen ∧ field bytes magicWordAt = 0xDEADBEEF ∧
      field bytes cmdAt = cmdGetPageData ∧ field bytes pageSizeAt = pageSizeMax ∧
      field bytes pageNumAt = k := by decide
  intro k
  obtain ⟨hlen, hmagic, hcmd, hsize, hnum⟩ := h k
  exact ⟨hlen.ge, hlen.le.trans (by decide), hmagic, hcmd, hsize, hnum⟩

/-- The image is downloaded by three requests, the last of which gets no reply. -/
theorem download_small_image :
    ∃ replies, serve smallImage (List.replicate 1040 0)
        [pageRequest 0xDEADBEEF 0 pageSizeMax 0, pageRequest 0xDEADBEEF 0 pageSizeMax 1,
          pageRequest 0xDEADBEEF 0 pageSizeMax 2] = some replies ∧
      List.Forall₂ (Answered smallImage) [0, 1, 2] replies ∧
      ∀ k, pageCount smallImage ≤ k → [0, 1, 2] = List.range k →
        replies.flatten.flatMap payload = smallImage.firmware :=
  download
    (.cons (isPageRequest_smallImage 0) (.cons (isPageRequest_smallImage 1)
      (.cons (isPageRequest_smallImage 2) .nil)))
    (List.length_replicate ..) (by decide)

end MyLibraries.Ota
