import MyLibraries.Plbus.Model

/-!
# Frames of `plbus`

What `plbus_put` and `plbus_poll` do with the bytes of one complete frame. A receiver out
of sync that takes in a frame has its header and payload in the buffer (`puts_frame`), and
one poll then has three outcomes: the frame is foreign, its checksum is wrong, or it is
delivered. Only the last one leaves the receiver out of sync.
-/

namespace MyLibraries.Plbus

open Memory

/-- A frame on the wire. -/
structure Frame where
  address : UInt8
  crc : BitVec 16
  error : UInt16
  payload : List UInt8

/-- The header after the token. -/
def Frame.header (f : Frame) : List UInt8 :=
  [f.address] ++ leBytes 2 f.crc.toNat ++ leBytes 2 f.payload.length ++ leBytes 2 f.error.toNat

def Frame.bytes (f : Frame) : List UInt8 := token :: (f.header ++ f.payload)

/-- The bytes passed to `plbus_put` one by one. -/
def puts (bus : Bus) (bytes : List UInt8) : Bus := bytes.foldl put bus

/-- The frame is for another node. -/
def Foreign (bus : Bus) (f : Frame) : Prop :=
  f.address ≠ broadcast ∧ f.address.toNat ≠ bus.ownAddress.toNat

/-- The buffer holds the frame and the four bytes behind it. -/
def Fits (bus : Bus) (f : Frame) : Prop := 12 + f.payload.length ≤ bus.rxBuffer.length

/-- The checksum is the one that `plbus_poll` takes: of the payload and of the four bytes
that the buffer has behind the frame. -/
def CrcRight (bus : Bus) (f : Frame) : Prop :=
  ∃ behind, load bus.rxBuffer (8 + f.payload.length) 4 = some behind ∧
    crc16 (f.payload ++ behind) = f.crc

/-- The frame is for this node or for all, it fits, and its checksum is right. -/
def Accepts (bus : Bus) (f : Frame) : Prop := ¬ Foreign bus f ∧ Fits bus f ∧ CrcRight bus f

instance : DecidableRel Foreign := fun _ _ => inferInstanceAs (Decidable (_ ∧ _))

instance : DecidableRel Fits := fun _ _ => inferInstanceAs (Decidable (_ ≤ _))

instance : DecidableRel CrcRight := fun bus f =>
  match h : load bus.rxBuffer (8 + f.payload.length) 4 with
  | none => .isFalse (by simp [CrcRight, h])
  | some behind =>
    decidable_of_iff (crc16 (f.payload ++ behind) = f.crc) (by simp [CrcRight, h])

instance : DecidableRel Accepts := fun _ _ => inferInstanceAs (Decidable (_ ∧ _ ∧ _))

/-- The bytes of a frame and one poll. -/
def receive (onReceive : Callback) (bus : Bus) (f : Frame) : Option (Reply × Bus) :=
  poll (puts bus f.bytes) (some onReceive)

/-- The reply of a poll that delivers the frame. -/
def delivery (f : Frame) : Reply := ⟨0, [(f.payload, f.payload.length)]⟩

/-- The bus holds the header of the frame and has counted its bytes. -/
structure Heard (bus : Bus) (f : Frame) : Prop where
  inSync : bus.inSync = true
  count : bus.rxCnt.toNat = 8 + f.payload.length
  header : At bus.rxBuffer 1 f.header

variable {bus bus' : Bus} {f : Frame} {bs : List UInt8} {onReceive : Callback} {p : Nat}

theorem Frame.header_length (f : Frame) : f.header.length = 7 := by
  simp [Frame.header]

theorem Frame.bytes_length (f : Frame) : f.bytes.length = 8 + f.payload.length := by
  simp only [Frame.bytes, List.length_cons, List.length_append, f.header_length]
  omega

theorem write_exists (bus : Bus) (p : Nat) (bs : List UInt8)
    (h : p + bs.length ≤ bus.rxBuffer.length) :
    ∃ bus', bus.write p bs = some bus' ∧ store bus.rxBuffer p bs = some bus'.rxBuffer ∧
      bus'.ownAddress = bus.ownAddress ∧ bus'.inSync = bus.inSync := by
  obtain ⟨m, hm⟩ := store_exists bus.rxBuffer p bs h
  unfold Bus.write
  split
  · rename_i hnone
    rw [hm] at hnone
    cases hnone
  · rename_i m' hsome
    exact ⟨_, rfl, hsome, rfl, rfl⟩

/-! ## Taking in bytes -/

theorem put_inSync (hs : bus.inSync = true) (byte : UInt8) :
    (put bus byte).inSync = true ∧ (put bus byte).rxCnt = bus.rxCnt + 1 ∧
      (put bus byte).rxBuffer = bus.rxBuffer.set bus.rxCnt.toNat byte ∧
      (put bus byte).ownAddress = bus.ownAddress := by
  rw [put, hs, if_neg (by decide)]
  split
  · exact ⟨rfl, rfl, rfl, rfl⟩
  · rename_i hout
    rw [List.set_eq_of_length_le (by omega)]
    exact ⟨rfl, rfl, rfl, rfl⟩

/-- A receiver in sync takes in bytes. -/
theorem puts_inSync (bus : Bus) (bs : List UInt8) (hs : bus.inSync = true)
    (hc : bus.rxCnt.toNat + bs.length < 2 ^ 16) :
    (puts bus bs).inSync = true ∧ (puts bus bs).rxCnt.toNat = bus.rxCnt.toNat + bs.length ∧
      (puts bus bs).rxBuffer = fill bus.rxBuffer bus.rxCnt.toNat bs ∧
      (puts bus bs).ownAddress = bus.ownAddress := by
  induction bs generalizing bus with
  | nil => exact ⟨hs, rfl, rfl, rfl⟩
  | cons b bs ih =>
    rw [List.length_cons] at hc
    obtain ⟨hs₁, hc₁, hb₁, ho₁⟩ := put_inSync hs b
    have hnext : (put bus b).rxCnt.toNat = bus.rxCnt.toNat + 1 := by
      rw [hc₁, UInt16.toNat_add, UInt16.toNat_one, Nat.mod_eq_of_lt (by omega)]
    obtain ⟨hs₂, hc₂, hb₂, ho₂⟩ := ih _ hs₁ (by omega)
    rw [hnext] at hc₂ hb₂
    rw [hb₁] at hb₂
    refine ⟨hs₂, ?_, hb₂, ho₂.trans ho₁⟩
    rw [List.length_cons]
    show (puts (put bus b) bs).rxCnt.toNat = _
    omega

/-- A receiver out of sync takes in a complete frame. -/
theorem puts_frame (hidle : bus.inSync = false) (hcount : 8 + f.payload.length < 2 ^ 16)
    (hroom : 8 ≤ bus.rxBuffer.length) :
    Heard (puts bus f.bytes) f ∧
      (puts bus f.bytes).rxBuffer = fill bus.rxBuffer 1 (f.header ++ f.payload) ∧
      (puts bus f.bytes).ownAddress = bus.ownAddress := by
  have hlen := f.header_length
  have hputs : puts bus f.bytes =
      puts { bus with inSync := true, rxCnt := 1 } (f.header ++ f.payload) := by
    show puts (put bus token) _ = _
    rw [put, hidle, if_pos (by rfl), if_pos rfl]
  obtain ⟨hs, hc, hb, ho⟩ := puts_inSync { bus with inSync := true, rxCnt := 1 }
    (f.header ++ f.payload) rfl (by
      rw [List.length_append]
      show 1 + _ < _
      omega)
  rw [List.length_append, hlen] at hc
  rw [hputs]
  refine ⟨⟨hs, ?_, ?_⟩, hb, ho⟩
  · rw [hc]
    show 1 + _ = _
    omega
  · rw [hb, fill_append, at_fill_below (by rw [UInt16.toNat_one])]
    show At (fill bus.rxBuffer 1 f.header) 1 f.header
    exact at_of_store (store_eq_fill _ _ _ (by omega))

/-- With room for it the buffer holds the payload too, and is unchanged behind it. -/
theorem puts_frame_payload (hidle : bus.inSync = false) (hfits : Fits bus f) :
    At (puts bus f.bytes).rxBuffer 8 f.payload ∧
      ∀ behind, At bus.rxBuffer (8 + f.payload.length) behind →
        At (puts bus f.bytes).rxBuffer (8 + f.payload.length) behind := by
  unfold Fits at hfits
  have hsize := bus.size_lt
  have hlen := f.header_length
  obtain ⟨-, hb, -⟩ := puts_frame (f := f) hidle (by omega) (by omega)
  have hstore := store_eq_fill bus.rxBuffer 1 (f.header ++ f.payload)
    (by rw [List.length_append]; omega)
  rw [← hb] at hstore
  have hat := at_of_store hstore
  rw [at_append, hlen] at hat
  refine ⟨hat.2, fun behind hbehind => ?_⟩
  exact (at_store_frame hstore (Or.inr (by rw [List.length_append]; omega))).mpr hbehind

/-! ## Polling -/

theorem Heard.loads (hh : Heard bus f) (hcount : f.payload.length < 2 ^ 16) :
    loadWord bus.rxBuffer 1 1 = some f.address.toNat ∧
      loadWord bus.rxBuffer 2 2 = some f.crc.toNat ∧
      loadWord bus.rxBuffer 4 2 = some f.payload.length := by
  have hat := hh.header
  have haddress : [f.address] = leBytes 1 f.address.toNat := by
    rw [leBytes, leBytes, UInt8.ofNat_toNat]
  have hbyte := f.address.toNat_lt
  have hcrc := f.crc.isLt
  simp only [Frame.header, at_append, List.length_append, leBytes_length,
    List.length_singleton] at hat
  obtain ⟨⟨⟨h₁, h₂⟩, h₄⟩, -⟩ := hat
  rw [haddress] at h₁
  exact ⟨loadWord_of_at h₁ (by omega), loadWord_of_at h₂ (by omega),
    loadWord_of_at h₄ (by omega)⟩

/-- The bytes that the checksum of `plbus_poll` covers. -/
theorem load_covered {behind : List UInt8} (hfits : Fits bus f)
    (hpayload : At bus.rxBuffer 8 f.payload)
    (hbehind : load bus.rxBuffer (8 + f.payload.length) 4 = some behind) :
    load bus.rxBuffer 8 (wrap 16 (f.payload.length + 1 + 1 + 2)) = some (f.payload ++ behind) := by
  have hsize := bus.size_lt
  unfold Fits at hfits
  have hat : At bus.rxBuffer 8 (f.payload ++ behind) :=
    at_append.mpr ⟨hpayload, at_of_load hbehind⟩
  apply load_of_at hat
  rw [wrap_of_lt (by omega), List.length_append, load_length hbehind]

theorem not_foreign (hmine : ¬ Foreign bus f) :
    ¬ (f.address.toNat ≠ broadcast.toNat ∧ f.address.toNat ≠ bus.ownAddress.toNat) := by
  rintro ⟨hbroadcast, hown⟩
  exact hmine ⟨fun h => hbroadcast (congrArg UInt8.toNat h), hown⟩

section Heard

variable (hh : Heard bus f) (hcount : f.payload.length < 2 ^ 16)
include hh hcount

/-- A foreign frame changes nothing, so the receiver stays in sync. -/
theorem poll_foreign (hforeign : Foreign bus f) :
    poll bus (some onReceive) = some (⟨0, []⟩, bus) := by
  obtain ⟨haddress, -, hsize⟩ := hh.loads hcount
  have hbroadcast : f.address.toNat ≠ broadcast.toNat := by
    intro heq
    exact hforeign.1 (UInt8.toNat_inj.mp heq)
  simp only [poll, hh.inSync, hsize, haddress, Option.bind_eq_bind, some_bind]
  rw [if_neg (by decide), if_neg (by rw [hh.count]; omega), if_pos ⟨hbroadcast, hforeign.2⟩]

section Covered

variable (hmine : ¬ Foreign bus f) (hfits : Fits bus f) (hpayload : At bus.rxBuffer 8 f.payload)
  {behind : List UInt8} (hbehind : load bus.rxBuffer (8 + f.payload.length) 4 = some behind)
include hmine hfits hpayload hbehind

/-- A wrong checksum is counted, and the receiver stays in sync. -/
theorem poll_corrupted (hcrc : crc16 (f.payload ++ behind) ≠ f.crc) :
    poll bus (some onReceive) = some (⟨crcError, []⟩, { bus with crcErr := bus.crcErr + 1 }) := by
  obtain ⟨haddress, hword, hsize⟩ := hh.loads hcount
  have hcovered := load_covered hfits hpayload hbehind
  have hne : (crc16 (f.payload ++ behind)).toNat ≠ f.crc.toNat := by
    intro heq
    exact hcrc (BitVec.eq_of_toNat_eq heq)
  simp only [poll, hh.inSync, hsize, haddress, hcovered, hword, Option.bind_eq_bind, some_bind]
  rw [if_neg (by decide), if_neg (by rw [hh.count]; omega), if_neg (not_foreign hmine), if_pos hne]

/-- A right checksum delivers the payload, and the receiver waits for the next token. -/
theorem poll_accepted (hcrc : crc16 (f.payload ++ behind) = f.crc) :
    ∃ bus', poll bus (some onReceive) = some (⟨0, [(f.payload, f.payload.length)]⟩, bus') ∧
      bus'.inSync = false ∧ bus'.ownAddress = bus.ownAddress ∧
      bus'.rxBuffer.length = bus.rxBuffer.length := by
  obtain ⟨haddress, hword, hsize⟩ := hh.loads hcount
  have hcovered := load_covered hfits hpayload hbehind
  unfold Fits at hfits
  obtain ⟨error, data', hdata'⟩ : ∃ error data', onReceive f.payload = (error, data') :=
    ⟨_, _, rfl⟩
  have hlen := data'.property
  obtain ⟨bus₁, hw₁, hst₁, ho₁, hs₁⟩ := write_exists { bus with inSync := false } 8 data'.val
    (by show _ ≤ bus.rxBuffer.length; omega)
  have hsize₁ : bus₁.rxBuffer.length = bus.rxBuffer.length := store_length hst₁
  obtain ⟨bus₂, hw₂, hst₂, ho₂, hs₂⟩ := write_exists bus₁ 6 (leBytes 2 error.toNat)
    (by rw [leBytes_length]; omega)
  refine ⟨bus₂, ?_, hs₂.trans hs₁, ho₂.trans ho₁, (store_length hst₂).trans hsize₁⟩
  have hload : load bus.rxBuffer 8 f.payload.length = some f.payload := hpayload
  simp only [poll, hh.inSync, hsize, haddress, hcovered, hword, hload, hdata', hw₁, hw₂, hcrc,
    Option.bind_eq_bind, some_bind]
  rw [if_neg (by decide), if_neg (by rw [hh.count]; omega), if_neg (not_foreign hmine),
    if_neg (by simp)]

end Covered

end Heard

/-! ## One frame -/

section Idle

variable (hidle : bus.inSync = false)
include hidle

theorem receive_foreign (onReceive : Callback) (hcount : 8 + f.payload.length < 2 ^ 16)
    (hroom : 8 ≤ bus.rxBuffer.length) (hforeign : Foreign bus f) :
    receive onReceive bus f = some (⟨0, []⟩, puts bus f.bytes) := by
  obtain ⟨hheard, -, hown⟩ := puts_frame hidle hcount hroom
  refine poll_foreign hheard (by omega) ?_
  unfold Foreign
  rw [hown]
  exact hforeign

section Mine

variable (hmine : ¬ Foreign bus f) (hfits : Fits bus f)
include hmine hfits

/-- A frame that fits is in the buffer, in front of the four bytes that were there. -/
theorem receive_mine : ∃ behind, load bus.rxBuffer (8 + f.payload.length) 4 = some behind ∧
    Heard (puts bus f.bytes) f ∧ f.payload.length < 2 ^ 16 ∧ ¬ Foreign (puts bus f.bytes) f ∧
    Fits (puts bus f.bytes) f ∧ At (puts bus f.bytes).rxBuffer 8 f.payload ∧
    load (puts bus f.bytes).rxBuffer (8 + f.payload.length) 4 = some behind ∧
    (puts bus f.bytes).ownAddress = bus.ownAddress ∧
    (puts bus f.bytes).rxBuffer.length = bus.rxBuffer.length := by
  have hsize := bus.size_lt
  have hroom : 12 + f.payload.length ≤ bus.rxBuffer.length := hfits
  obtain ⟨hheard, hbuffer, hown⟩ := puts_frame (f := f) hidle (by omega) (by omega)
  obtain ⟨hpayload, hrest⟩ := puts_frame_payload hidle hfits
  obtain ⟨behind, hbehind⟩ := load_exists (m := bus.rxBuffer) (p := 8 + f.payload.length)
    (n := 4) (by omega)
  have hlength : (puts bus f.bytes).rxBuffer.length = bus.rxBuffer.length := by
    rw [hbuffer, fill_length]
  have hat := load_of_at (hrest behind (at_of_load hbehind)) (load_length hbehind).symm
  refine ⟨behind, hbehind, hheard, by omega, ?_, ?_, hpayload, hat, hown, hlength⟩
  · unfold Foreign
    rw [hown]
    exact hmine
  · unfold Fits
    rw [hlength]
    exact hroom

theorem receive_corrupted (onReceive : Callback) (hcrc : ¬ CrcRight bus f) :
    receive onReceive bus f = some (⟨crcError, []⟩,
      { puts bus f.bytes with crcErr := (puts bus f.bytes).crcErr + 1 }) := by
  obtain ⟨behind, hbehind, hheard, hcount, hmine', hfits', hpayload, hbehind', -⟩ :=
    receive_mine hidle hmine hfits
  exact poll_corrupted hheard hcount hmine' hfits' hpayload hbehind'
    fun h => hcrc ⟨behind, hbehind, h⟩

end Mine

theorem receive_accepted (onReceive : Callback) (h : Accepts bus f) :
    ∃ bus', receive onReceive bus f = some (delivery f, bus') ∧ bus'.inSync = false ∧
      bus'.ownAddress = bus.ownAddress ∧ bus'.rxBuffer.length = bus.rxBuffer.length := by
  obtain ⟨hmine, hfits, behind₀, hbehind₀, hcrc⟩ := h
  obtain ⟨behind, hbehind, hheard, hcount, hmine', hfits', hpayload, hbehind', hown, hlength⟩ :=
    receive_mine hidle hmine hfits
  obtain rfl := Option.some.inj (hbehind₀.symm.trans hbehind)
  obtain ⟨bus', hpoll, hidle', hown', hlength'⟩ := poll_accepted hheard
    hcount hmine' hfits' hpayload hbehind' hcrc
  exact ⟨bus', hpoll, hidle', hown'.trans hown, hlength'.trans hlength⟩

end Idle

end MyLibraries.Plbus
