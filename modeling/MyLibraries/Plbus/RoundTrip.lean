import MyLibraries.Plbus.Frame

/-!
# The round trip of `plbus`

The comment in `plbus_poll` says that the checksum also covers the size and the error
value, and its length has room for these, but both ends take it from the payload on. So
it covers the payload and the four bytes that each end happens to have behind the frame.
Since the checksum is linear, the payload drops out: `round_trip` says that a frame is
delivered exactly when these four bytes have the same checksum at both ends, and the
destination fits the address byte.
-/

namespace MyLibraries.Plbus

open Memory

/-- One poll after the bytes calls `on_receive` once, with the payload, and returns 0. -/
def Delivers (onReceive : Callback) (bus : Bus) (bytes payload : List UInt8) : Prop :=
  ∃ bus', poll (puts bus bytes) (some onReceive) =
    some (⟨0, [(payload, payload.length)]⟩, bus')

variable {bus : Bus} {dst : UInt16} {data behind payload : List UInt8}
  {onTransmit onReceive : Callback}

theorem not_delivers {bytes : List UInt8} (reply : Reply)
    (hpoll : (poll (puts bus bytes) (some onReceive)).map Prod.fst = some reply)
    (hcalls : reply.calls ≠ [(payload, payload.length)]) :
    ¬ Delivers onReceive bus bytes payload := by
  rintro ⟨bus', hbus'⟩
  rw [hbus'] at hpoll
  exact hcalls (Option.some.inj hpoll ▸ rfl)

/-- What the buffer of the sender holds when the checksum is taken: all of the frame but
the checksum, with the old error reply, and what was behind it. -/
theorem send_build (hfits : 12 + data.length ≤ bus.rxBuffer.length)
    (hbehind : load bus.rxBuffer (8 + data.length) 4 = some behind) (dst : UInt16) :
    ∃ (error : UInt16) (bus₁ bus₂ bus₃ bus₄ : Bus),
      bus.write 0 [token] = some bus₁ ∧ bus₁.write 1 [dst.toUInt8] = some bus₂ ∧
      bus₂.write 4 (leBytes 2 data.length) = some bus₃ ∧ bus₃.write 8 data = some bus₄ ∧
      bus₄.rxBuffer.length = bus.rxBuffer.length ∧
      At bus₄.rxBuffer 0 ([token] ++ [dst.toUInt8]) ∧
      At bus₄.rxBuffer 4 (leBytes 2 data.length ++ leBytes 2 error.toNat ++
        (data ++ behind)) := by
  obtain ⟨w, hw⟩ := loadWord_exists (m := bus.rxBuffer) (p := 6) (k := 2) (by omega)
  have hw_lt := loadWord_lt hw
  have hbehind_at := at_of_load hbehind
  obtain ⟨bus₁, hw₁, hst₁, -, -⟩ := write_exists bus 0 [token]
    (by rw [List.length_singleton]; omega)
  have hlen₁ := store_length hst₁
  obtain ⟨bus₂, hw₂, hst₂, -, -⟩ := write_exists bus₁ 1 [dst.toUInt8]
    (by rw [List.length_singleton]; omega)
  have hlen₂ := store_length hst₂
  obtain ⟨bus₃, hw₃, hst₃, -, -⟩ := write_exists bus₂ 4 (leBytes 2 data.length)
    (by rw [leBytes_length]; omega)
  have hlen₃ := store_length hst₃
  obtain ⟨bus₄, hw₄, hst₄, -, -⟩ := write_exists bus₃ 8 data (by omega)
  have hlen₄ := store_length hst₄
  refine ⟨UInt16.ofNat w, bus₁, bus₂, bus₃, bus₄, hw₁, hw₂, hw₃, hw₄, by omega, ?_, ?_⟩
  · rw [at_append]
    constructor
    · rw [at_store_frame hst₄ (by simp), at_store_frame hst₃ (by simp),
        at_store_frame hst₂ (by simp)]
      exact at_of_store hst₁
    · rw [at_store_frame hst₄ (by simp), at_store_frame hst₃ (by simp)]
      exact at_of_store hst₂
  · simp only [at_append, List.length_append, leBytes_length]
    refine ⟨⟨?_, ?_⟩, at_of_store hst₄, ?_⟩
    · rw [at_store_frame hst₄ (by simp)]
      exact at_of_store hst₃
    · rw [UInt16.toNat_ofNat', Nat.mod_eq_of_lt (by omega), at_store_frame hst₄ (by simp),
        at_store_frame hst₃ (by simp), at_store_frame hst₂ (by simp),
        at_store_frame hst₁ (by simp)]
      exact at_of_loadWord hw
    · rw [at_store_frame hst₄ (Or.inr (by omega)),
        at_store_frame hst₃ (Or.inr (by rw [leBytes_length]; omega)),
        at_store_frame hst₂ (Or.inr (by rw [List.length_singleton]; omega)),
        at_store_frame hst₁ (Or.inr (by rw [List.length_singleton]; omega))]
      exact hbehind_at

/-- What `plbus_send` hands to `on_transmit`: the checksum is of the data and of the four
bytes behind the frame. -/
theorem send_frame (dst : UInt16) (onTransmit : Callback)
    (hfits : 12 + data.length ≤ bus.rxBuffer.length)
    (hbehind : load bus.rxBuffer (8 + data.length) 4 = some behind) :
    ∃ ret error bus', send bus dst data onTransmit =
      some (⟨ret, [((Frame.mk dst.toUInt8 (crc16 (data ++ behind)) error data).bytes,
        8 + data.length)]⟩, bus') := by
  have hsize := bus.size_lt
  obtain ⟨error, bus₁, bus₂, bus₃, bus₄, hw₁, hw₂, hw₃, hw₄, hlen₄, hstart, hrest⟩ :=
    send_build hfits hbehind dst
  obtain ⟨bus₅, hw₅, hst₅, -, -⟩ := write_exists bus₄ 2
    (leBytes 2 (crc16 (data ++ behind)).toNat) (by rw [leBytes_length]; omega)
  have hlen₅ := store_length hst₅
  have hparts := hrest
  simp only [at_append, List.length_append, leBytes_length] at hparts
  obtain ⟨⟨hsizeAt, -⟩, hdataAt, hbehindAt⟩ := hparts
  have hsize₄ : loadWord bus₄.rxBuffer 4 2 = some data.length :=
    loadWord_of_at hsizeAt (by omega)
  have hcovered : load bus₄.rxBuffer 8 (wrap 16 (data.length + 2 + 2)) =
      some (data ++ behind) := by
    apply load_of_at (at_append.mpr ⟨hdataAt, hbehindAt⟩)
    rw [wrap_of_lt (by omega), List.length_append, load_length hbehind]
  have hframe : load bus₅.rxBuffer 0 (wrap 16 (8 + data.length)) =
      some (Frame.mk dst.toUInt8 (crc16 (data ++ behind)) error data).bytes := by
    have hstart₅ := (at_store_frame hst₅ (Or.inl (by simp))).mpr hstart
    have hrest₅ := (at_store_frame hst₅ (Or.inr (by simp))).mpr hrest
    have hat : At bus₅.rxBuffer 0
        (Frame.mk dst.toUInt8 (crc16 (data ++ behind)) error data).bytes := by
      rw [Frame.bytes, ← List.singleton_append]
      simp only [Frame.header, at_append, List.length_append, leBytes_length,
        List.length_singleton] at hstart₅ hrest₅ ⊢
      exact ⟨hstart₅.1, ⟨⟨⟨hstart₅.2, at_of_store hst₅⟩, hrest₅.1.1⟩, hrest₅.1.2⟩, hrest₅.2.1⟩
    apply load_of_at hat
    rw [wrap_of_lt (by omega), Frame.bytes_length]
  obtain ⟨ret, frame', hcall⟩ : ∃ ret frame',
      onTransmit (Frame.mk dst.toUInt8 (crc16 (data ++ behind)) error data).bytes =
        (ret, frame') := ⟨_, _, rfl⟩
  have hlen' : frame'.val.length = 8 + data.length :=
    frame'.property.trans (Frame.bytes_length _)
  obtain ⟨bus₆, hw₆, -, -, -⟩ := write_exists bus₅ 0 frame'.val (by omega)
  refine ⟨ret, error, bus₆, ?_⟩
  simp only [send, hw₁, hw₂, hw₃, hw₄, hw₅, hw₆, hsize₄, hcovered, hframe, hcall,
    Option.bind_eq_bind, some_bind]
  rw [wrap_of_lt (by omega)]

/-- A receiver out of sync delivers, of the frames that fit, those it accepts. -/
theorem delivers_iff {f : Frame} (hidle : bus.inSync = false) (hfits : Fits bus f) :
    Delivers onReceive bus f.bytes f.payload ↔ ¬ Foreign bus f ∧ CrcRight bus f := by
  have hsize := bus.size_lt
  have hroom : 12 + f.payload.length ≤ bus.rxBuffer.length := hfits
  constructor
  · rintro ⟨bus', hpoll⟩
    have hmine : ¬ Foreign bus f := by
      intro hforeign
      have hreceive := receive_foreign hidle onReceive (by omega) (by omega) hforeign
      cases hreceive.symm.trans hpoll
    refine ⟨hmine, ?_⟩
    by_contra hcrc
    have hreceive := receive_corrupted hidle hmine hfits onReceive hcrc
    cases hreceive.symm.trans hpoll
  · rintro ⟨hmine, hcrc⟩
    obtain ⟨bus', hreceive, -⟩ := receive_accepted hidle onReceive ⟨hmine, hfits, hcrc⟩
    exact ⟨bus', hreceive⟩

/-- **The round trip.** -/
theorem round_trip (sender receiver : Bus) (dst : UInt16) (payload : List UInt8)
    (onTransmit onReceive : Callback) (hsender : 12 + payload.length ≤ sender.rxBuffer.length)
    (hreceiver : 12 + payload.length ≤ receiver.rxBuffer.length)
    (hidle : receiver.inSync = false) (hown : receiver.ownAddress = dst ∨ dst = 0) :
    ∃ ret bytes sender' behindSender behindReceiver,
      send sender dst payload onTransmit =
        some (⟨ret, [(bytes, 8 + payload.length)]⟩, sender') ∧
      load sender.rxBuffer (8 + payload.length) 4 = some behindSender ∧
      load receiver.rxBuffer (8 + payload.length) 4 = some behindReceiver ∧
      (Delivers onReceive receiver bytes payload ↔
        (dst.toNat < 256 ∨ dst.toNat % 256 = 0) ∧
          crc16 behindSender = crc16 behindReceiver) := by
  obtain ⟨behindS, hS⟩ := load_exists (m := sender.rxBuffer) (p := 8 + payload.length) (n := 4)
    (by omega)
  obtain ⟨behindR, hR⟩ := load_exists (m := receiver.rxBuffer) (p := 8 + payload.length) (n := 4)
    (by omega)
  obtain ⟨ret, error, sender', hsend⟩ := send_frame dst onTransmit hsender hS
  refine ⟨ret, _, sender', behindS, behindR, hsend, hS, hR, ?_⟩
  have hforeign : ¬ Foreign receiver ⟨dst.toUInt8, crc16 (payload ++ behindS), error, payload⟩ ↔
      dst.toNat < 256 ∨ dst.toNat % 256 = 0 := by
    have haddress : dst.toUInt8 = broadcast ↔ dst.toNat % 256 = 0 := by
      rw [← UInt8.toNat_inj, UInt16.toNat_toUInt8]
      rfl
    simp only [Foreign, UInt16.toNat_toUInt8, ne_eq, haddress]
    rcases hown with rfl | rfl
    · omega
    · simp
  have hcrc : CrcRight receiver ⟨dst.toUInt8, crc16 (payload ++ behindS), error, payload⟩ ↔
      crc16 behindS = crc16 behindR := by
    rw [← crc16_append_eq_iff ((load_length hS).trans (load_length hR).symm) payload]
    constructor
    · rintro ⟨behind, hbehind, heq⟩
      obtain rfl := Option.some.inj (hbehind.symm.trans hR)
      exact heq.symm
    · intro heq
      exact ⟨behindR, hR, heq.symm⟩
  rw [← hforeign, ← hcrc]
  exact delivers_iff hidle hreceiver

/-- One byte, sent between two buffers that hold the same four bytes behind the frame. -/
theorem round_trip_one_byte : ∃ ret bytes sender',
    send (plbusInit 1 (List.replicate 13 0) (by decide)) 5 [0x11] (fun data => (0, ⟨data, rfl⟩)) =
      some (⟨ret, [(bytes, 9)]⟩, sender') ∧
    Delivers (fun data => (0, ⟨data, rfl⟩)) (plbusInit 5 (List.replicate 16 0) (by decide)) bytes
      [0x11] := by
  obtain ⟨ret, bytes, sender', behindS, behindR, hsend, hS, hR, hiff⟩ :=
    round_trip (plbusInit 1 (List.replicate 13 0) (by decide))
      (plbusInit 5 (List.replicate 16 0) (by decide)) 5 [0x11] (fun data => (0, ⟨data, rfl⟩))
      (fun data => (0, ⟨data, rfl⟩)) (by decide) (by decide) rfl (Or.inl rfl)
  refine ⟨ret, bytes, sender', hsend, hiff.mpr ⟨by decide, ?_⟩⟩
  cases hS
  cases hR
  rfl

/-- The same byte, when the last byte of the sender's buffer is 1: the poll reports a
checksum error. -/
theorem round_trip_broken : ∃ ret bytes sender',
    send (plbusInit 1 (List.replicate 12 0 ++ [1]) (by decide)) 5 [0x11]
        (fun data => (0, ⟨data, rfl⟩)) = some (⟨ret, [(bytes, 9)]⟩, sender') ∧
    (poll (puts (plbusInit 5 (List.replicate 13 0) (by decide)) bytes)
      (some fun data => (0, ⟨data, rfl⟩))).map Prod.fst = some ⟨crcError, []⟩ ∧
    ¬ Delivers (fun data => (0, ⟨data, rfl⟩)) (plbusInit 5 (List.replicate 13 0) (by decide))
      bytes [0x11] := by
  refine ⟨_, _, _, rfl, by decide, ?_⟩
  exact not_delivers ⟨crcError, []⟩ (by decide) (by decide)

end MyLibraries.Plbus
