import Mathlib.Data.Set.Defs
import MyLibraries.Plbus.Bounds

/-!
# The header of `plbus`

The comment in `plbus_poll` says that the checksum also covers the size and the error
value. Its length counts them, but it starts at the payload: the error is not covered at
all, and another size is noticed only if it changes the checksum by what it adds to or
takes from the covered bytes (`header_protected_iff`).

The address is 16 bits wide in `plbus_send` and in the nodes and 8 bits in the header:
`addressing_iff` says which destinations reach the nodes that they are for.
-/

namespace MyLibraries.Plbus

open Memory

/-- The bytes that `plbus_poll` takes the checksum of when the header has this size. -/
def coveredBytes (bus : Bus) (size : Nat) : List UInt8 := (bus.rxBuffer.drop 8).take (size + 4)

/-- The bus with another size and error in the header, and the count that belongs to the
size. -/
def withHeader (bus : Bus) (size error : UInt16) : Bus :=
  { bus with
    rxBuffer := fill bus.rxBuffer 4 (leBytes 2 size.toNat ++ leBytes 2 error.toNat)
    rxCnt := size + 8
    size_lt := fill_length.symm ▸ bus.size_lt }

/-- A complete frame for this node is in the buffer, with `n` bytes of payload and this
checksum in the header. -/
structure Complete (bus : Bus) (n crc : Nat) : Prop where
  inSync : bus.inSync = true
  size : loadWord bus.rxBuffer 4 2 = some n
  count : n + 8 = bus.rxCnt.toNat
  mine : ∃ address, loadWord bus.rxBuffer 1 1 = some address ∧
    ¬(address ≠ broadcast.toNat ∧ address ≠ bus.ownAddress.toNat)
  crc : loadWord bus.rxBuffer 2 2 = some crc

variable {bus bus' : Bus} {reply : Reply} {onReceive : Callback} {n crc : Nat}
  {size error : UInt16}

theorem load_coveredBytes (h : 12 + n ≤ bus.rxBuffer.length) :
    load bus.rxBuffer 8 (n + 4) = some (coveredBytes bus n) :=
  if_pos (by omega)

/-! ## What a poll says about the header -/

/-- A poll that calls `on_receive` has found the right checksum. -/
theorem poll_delivered (hpoll : poll bus (some onReceive) = some (reply, bus'))
    (hcalls : reply.calls ≠ []) :
    ∃ n, Complete bus n (crc16 (coveredBytes bus n)).toNat ∧
      12 + n ≤ bus.rxBuffer.length := by
  unfold poll at hpoll
  split at hpoll
  · cases hpoll
    exact absurd rfl hcalls
  · rename_i hsync
    obtain ⟨n, hsize, hpoll⟩ := Option.bind_eq_some_iff.mp hpoll
    split at hpoll
    · cases hpoll
      exact absurd rfl hcalls
    · rename_i hcount
      obtain ⟨address, haddress, hpoll⟩ := Option.bind_eq_some_iff.mp hpoll
      split at hpoll
      · cases hpoll
        exact absurd rfl hcalls
      · rename_i hmine
        obtain ⟨covered, hcovered, hpoll⟩ := Option.bind_eq_some_iff.mp hpoll
        obtain ⟨crc, hcrc, hpoll⟩ := Option.bind_eq_some_iff.mp hpoll
        split at hpoll
        · cases hpoll
          exact absurd rfl hcalls
        · rename_i heq
          have hlt := bus.rxCnt.toNat_lt
          have hwrap : wrap 16 (n + 1 + 1 + 2) = n + 4 := wrap_of_lt (by omega)
          have hbound := load_bound hcovered
          have hroom : 12 + n ≤ bus.rxBuffer.length := by omega
          rw [hwrap, load_coveredBytes hroom] at hcovered
          cases hcovered
          refine ⟨n, ⟨by simpa using hsync, hsize, by omega, ⟨address, haddress, hmine⟩, ?_⟩,
            hroom⟩
          rw [hcrc, not_not.mp heq]

/-- A poll of a complete frame reports a checksum error when it can take the checksum and
finds another one. -/
theorem poll_refused_iff (h : Complete bus n crc) :
    (∃ bus', poll bus (some onReceive) = some (⟨crcError, []⟩, bus')) ↔
      12 + n ≤ bus.rxBuffer.length ∧ (crc16 (coveredBytes bus n)).toNat ≠ crc := by
  obtain ⟨hsync, hsize, hcount, ⟨address, haddress, hmine⟩, hcrc⟩ := h
  have hlt := bus.rxCnt.toNat_lt
  have hwrap : wrap 16 (n + 1 + 1 + 2) = n + 4 := wrap_of_lt (by omega)
  simp only [poll, hsync, hsize, haddress, hcrc, hwrap, Option.bind_eq_bind, some_bind]
  rw [if_neg (by decide), if_neg (not_not.mpr hcount), if_neg hmine]
  by_cases hroom : 12 + n ≤ bus.rxBuffer.length
  · rw [load_coveredBytes hroom, some_bind]
    by_cases hne : (crc16 (coveredBytes bus n)).toNat ≠ crc
    · rw [if_pos hne]
      exact iff_of_true ⟨_, rfl⟩ ⟨hroom, hne⟩
    · rw [if_neg hne]
      refine iff_of_false ?_ fun h => hne h.2
      rintro ⟨bus', hpoll⟩
      obtain ⟨payload, -, hpoll⟩ := Option.bind_eq_some_iff.mp hpoll
      obtain ⟨bus₁, -, hpoll⟩ := Option.bind_eq_some_iff.mp hpoll
      obtain ⟨bus₂, -, hpoll⟩ := Option.bind_eq_some_iff.mp hpoll
      cases hpoll
  · have hload : load bus.rxBuffer 8 (n + 4) = none := if_neg (by omega)
    rw [hload, Option.bind_none]
    refine iff_of_false ?_ fun h => hroom h.1
    rintro ⟨bus', hpoll⟩
    cases hpoll

/-! ## Another header -/

/-- The other fields stay, and so does everything from the payload on. -/
theorem withHeader_at (size error : UInt16) (hroom : 8 ≤ bus.rxBuffer.length) :
    At (withHeader bus size error).rxBuffer 4 (leBytes 2 size.toNat ++ leBytes 2 error.toNat) ∧
      (∀ p bs, p + bs.length ≤ 4 →
        (At (withHeader bus size error).rxBuffer p bs ↔ At bus.rxBuffer p bs)) ∧
      (withHeader bus size error).rxBuffer.drop 8 = bus.rxBuffer.drop 8 := by
  have hlen : (leBytes 2 size.toNat ++ leBytes 2 error.toNat).length = 4 := by
    rw [List.length_append, leBytes_length, leBytes_length]
  have hstore := store_eq_fill bus.rxBuffer 4 (leBytes 2 size.toNat ++ leBytes 2 error.toNat)
    (by omega)
  refine ⟨at_of_store hstore, fun p bs hp => at_store_frame hstore (Or.inl hp), ?_⟩
  apply List.ext_getElem?
  intro i
  rw [List.getElem?_drop, List.getElem?_drop]
  exact (store_getElem? hstore (8 + i)).trans (if_neg (by omega))

theorem withHeader_covered (hroom : 8 ≤ bus.rxBuffer.length) (n : Nat) :
    coveredBytes (withHeader bus size error) n = coveredBytes bus n := by
  rw [coveredBytes, (withHeader_at size error hroom).2.2, coveredBytes]

theorem withHeader_complete (h : Complete bus n crc) (hroom : 8 ≤ bus.rxBuffer.length)
    (hsize : size.toNat + 8 < 2 ^ 16) :
    Complete (withHeader bus size error) size.toNat crc := by
  obtain ⟨hfields, hbelow, -⟩ := withHeader_at size error hroom
  obtain ⟨address, haddress, hmine⟩ := h.mine
  have hsizeAt := (at_append.mp hfields).1
  refine ⟨h.inSync, loadWord_of_at hsizeAt size.toNat_lt, ?_, ⟨address, ?_, hmine⟩, ?_⟩
  · show size.toNat + 8 = (size + 8).toNat
    have h8 : (8 : UInt16).toNat = 8 := rfl
    rw [UInt16.toNat_add, h8, Nat.mod_eq_of_lt hsize]
  · have hat := (hbelow 1 _ (by simp)).mpr (at_of_loadWord haddress)
    exact loadWord_of_at hat (loadWord_lt haddress)
  · have hat := (hbelow 2 _ (by simp)).mpr (at_of_loadWord h.crc)
    exact loadWord_of_at hat (loadWord_lt h.crc)

/-- A size whose count does not fit the counter leaves the node receiving. -/
theorem poll_withHeader_long (hsync : bus.inSync = true) (hroom : 8 ≤ bus.rxBuffer.length)
    (hsize : ¬size.toNat + 8 < 2 ^ 16) :
    poll (withHeader bus size error) (some onReceive) =
      some (⟨0, []⟩, withHeader bus size error) := by
  obtain ⟨hfields, -, -⟩ := withHeader_at size error hroom
  have hword : loadWord (withHeader bus size error).rxBuffer 4 2 = some size.toNat :=
    loadWord_of_at (at_append.mp hfields).1 size.toNat_lt
  have hlt := (withHeader bus size error).rxCnt.toNat_lt
  have hs : (withHeader bus size error).inSync = true := hsync
  simp only [poll, hs, hword, Option.bind_eq_bind, some_bind]
  rw [if_neg (by decide), if_pos (by omega)]

/-- **What protects the header.** Of a frame that is delivered, whatever else its size and
error fields are changed to, the changed frame is reported as a checksum error exactly when
the bytes that its size covers lie in the buffer and have another checksum than those that
the old size covers. -/
theorem header_protected_iff (bus : Bus) (onReceive : Callback) (reply : Reply) (bus' : Bus)
    (hpoll : poll bus (some onReceive) = some (reply, bus')) (hdelivered : reply.calls ≠ [])
    (size error : UInt16) :
    ∃ old, loadWord bus.rxBuffer 4 2 = some old ∧
      ((∃ bus₁, poll (withHeader bus size error) (some onReceive) =
          some (⟨crcError, []⟩, bus₁)) ↔
        12 + size.toNat ≤ bus.rxBuffer.length ∧
          crc16 (coveredBytes bus size.toNat) ≠ crc16 (coveredBytes bus old)) := by
  obtain ⟨old, hcomplete, hroom⟩ := poll_delivered hpoll hdelivered
  have hroom' : 8 ≤ bus.rxBuffer.length := by omega
  have hlength : (withHeader bus size error).rxBuffer.length = bus.rxBuffer.length := fill_length
  refine ⟨old, hcomplete.size, ?_⟩
  by_cases hsize : size.toNat + 8 < 2 ^ 16
  · rw [poll_refused_iff (withHeader_complete hcomplete hroom' hsize),
      withHeader_covered hroom', hlength, ne_eq, BitVec.toNat_inj]
  · have hlt := bus.size_lt
    rw [poll_withHeader_long hcomplete.inSync hroom' hsize]
    refine iff_of_false ?_ fun h => absurd h.1 (by omega)
    rintro ⟨bus₁, heq⟩
    cases heq

/-- One byte, with its size changed to 0: the shorter block has another checksum. -/
theorem header_protected_shorter :
    let bus := puts (plbusInit 5 (List.replicate 13 0) (by decide))
      [0xA5, 5, 0xC1, 0xC1, 1, 0, 0, 0, 0x11]
    ∃ bus₁, poll (withHeader bus 0 0) (some fun data => (0, ⟨data, rfl⟩)) =
      some (⟨crcError, []⟩, bus₁) := by
  intro bus
  have hpoll : (poll bus (some fun data => (0, ⟨data, rfl⟩))).map Prod.fst =
      some ⟨0, [([0x11], 1)]⟩ := by
    decide +kernel
  obtain ⟨⟨reply, bus'⟩, hpoll, rfl⟩ := Option.map_eq_some_iff.mp hpoll
  obtain ⟨old, hold, hiff⟩ := header_protected_iff bus _ _ bus' hpoll (by simp) 0 0
  have h1 : loadWord bus.rxBuffer 4 2 = some 1 := by decide +kernel
  obtain rfl : old = 1 := Option.some.inj (hold.symm.trans h1)
  exact hiff.mpr (by decide +kernel)

/-- The same frame with the error value 7 in its header is delivered. -/
theorem error_not_covered :
    let bus := puts (plbusInit 5 (List.replicate 13 0) (by decide))
      [0xA5, 5, 0xC1, 0xC1, 1, 0, 0, 0, 0x11]
    let changed := puts (plbusInit 5 (List.replicate 13 0) (by decide))
      [0xA5, 5, 0xC1, 0xC1, 1, 0, 7, 0, 0x11]
    (poll bus (some fun data => (0, ⟨data, rfl⟩))).map Prod.fst = some ⟨0, [([0x11], 1)]⟩ ∧
      (withHeader bus 1 7).rxBuffer = changed.rxBuffer ∧
      (withHeader bus 1 7).rxCnt = changed.rxCnt ∧
      (poll (withHeader bus 1 7) (some fun data => (0, ⟨data, rfl⟩))).map Prod.fst =
        some ⟨0, [([0x11], 1)]⟩ ∧
      ¬∃ bus₁, poll (withHeader bus 1 7) (some fun data => (0, ⟨data, rfl⟩)) =
        some (⟨crcError, []⟩, bus₁) := by
  intro bus changed
  have hpoll : (poll (withHeader bus 1 7) (some fun data => (0, ⟨data, rfl⟩))).map Prod.fst =
      some ⟨0, [([0x11], 1)]⟩ := by
    decide +kernel
  refine ⟨by decide +kernel, by decide +kernel, by decide +kernel, hpoll, ?_⟩
  rintro ⟨bus₁, heq⟩
  rw [heq] at hpoll
  cases hpoll

/-! ## Addresses -/

/-- What the address byte does with a destination. -/
theorem sent_foreign_iff {dst : UInt16} {f : Frame} (hf : f.address = dst.toUInt8) :
    ¬Foreign bus f ↔ dst.toNat % 256 = 0 ∨ bus.ownAddress.toNat = dst.toNat % 256 := by
  have hbroadcast : f.address = broadcast ↔ dst.toNat % 256 = 0 := by
    rw [← UInt8.toNat_inj, hf, UInt16.toNat_toUInt8]
    rfl
  rw [Foreign, ne_eq, ne_eq, hbroadcast, hf, UInt16.toNat_toUInt8]
  omega

/-- A frame that was taken in is accepted, checksum aside, by the nodes that it is not
foreign to. -/
theorem takesCrc_frame {f : Frame} (hidle : bus.inSync = false)
    (hcount : 8 + f.payload.length < 2 ^ 16) (hroom : 8 ≤ bus.rxBuffer.length) :
    TakesCrc (puts bus f.bytes) ↔ ¬Foreign bus f := by
  obtain ⟨hheard, -, hown⟩ := puts_frame hidle hcount hroom
  obtain ⟨haddress, -, hsize⟩ := hheard.loads (by omega)
  have hcnt := hheard.count
  have hbroadcast : f.address = broadcast ↔ f.address.toNat = broadcast.toNat :=
    UInt8.toNat_inj.symm
  simp only [TakesCrc, hheard.inSync, hsize, haddress, Option.map_some, Option.some.injEq,
    hown, Foreign, ne_eq, hbroadcast, true_and]
  omega

/-- **Who takes a frame.** For every destination and every set of idle nodes, the frame of
`plbus_send` is accepted, checksum aside, by all of them when the destination is 0.
Otherwise it is accepted by exactly the nodes whose address is the destination if and only
if the destination fits the address byte, or no node of the set shows that it does not: for
a multiple of 256 this takes that all have the address, for another destination that none
has it or its low byte. -/
theorem addressing_iff (sender : Bus) (dst : UInt16) (payload : List UInt8)
    (onTransmit : Callback) (hsender : 12 + payload.length ≤ sender.rxBuffer.length)
    (receivers : Set Bus)
    (hreceivers : ∀ r ∈ receivers, r.inSync = false ∧ 8 ≤ r.rxBuffer.length) :
    ∃ ret bytes sender', send sender dst payload onTransmit =
        some (⟨ret, [(bytes, 8 + payload.length)]⟩, sender') ∧
      (dst = 0 → ∀ r ∈ receivers, TakesCrc (puts r bytes)) ∧
      (dst ≠ 0 →
        ((∀ r ∈ receivers, TakesCrc (puts r bytes) ↔ r.ownAddress = dst) ↔
          dst.toNat < 256 ∨ ∀ r ∈ receivers,
            if dst.toNat % 256 = 0 then r.ownAddress = dst
            else r.ownAddress ≠ dst ∧ r.ownAddress.toNat ≠ dst.toNat % 256)) := by
  have hlt := sender.size_lt
  obtain ⟨behind, hbehind⟩ := load_exists (m := sender.rxBuffer) (p := 8 + payload.length)
    (n := 4) (by omega)
  obtain ⟨ret, error, sender', hsend⟩ := send_frame dst onTransmit hsender hbehind
  refine ⟨ret, _, sender', hsend, ?_⟩
  have htakes : ∀ r ∈ receivers, TakesCrc (puts r
      (Frame.mk dst.toUInt8 (crc16 (payload ++ behind)) error payload).bytes) ↔
        dst.toNat % 256 = 0 ∨ r.ownAddress.toNat = dst.toNat % 256 := by
    intro r hr
    obtain ⟨hidle, hroom⟩ := hreceivers r hr
    rw [takesCrc_frame hidle (by show 8 + payload.length < _; omega) hroom,
      sent_foreign_iff rfl]
  constructor
  · rintro rfl r hr
    exact (htakes r hr).mpr (Or.inl rfl)
  · intro hdst
    have hpos : dst.toNat ≠ 0 := fun h => hdst (UInt16.toNat_inj.mp h)
    constructor
    · intro hall
      by_cases hfits : dst.toNat < 256
      · exact Or.inl hfits
      · refine Or.inr fun r hr => ?_
        have hiff := hall r hr
        rw [htakes r hr, ← UInt16.toNat_inj] at hiff
        rw [ne_eq, ← UInt16.toNat_inj]
        split <;> omega
    · intro hcond r hr
      rw [htakes r hr, ← UInt16.toNat_inj]
      rcases hcond with hfits | hset
      · omega
      · have hr' := hset r hr
        rw [ne_eq, ← UInt16.toNat_inj] at hr'
        split at hr' <;> omega

/-- A frame for node 5, heard by the nodes 5 and 6. -/
theorem addressing_five : ∃ ret bytes sender',
    send (plbusInit 1 (List.replicate 13 0) (by decide)) 5 [0x11] (fun data => (0, ⟨data, rfl⟩)) =
      some (⟨ret, [(bytes, 9)]⟩, sender') ∧
    TakesCrc (puts (plbusInit 5 (List.replicate 13 0) (by decide)) bytes) ∧
    ¬TakesCrc (puts (plbusInit 6 (List.replicate 13 0) (by decide)) bytes) := by
  let five : Bus := plbusInit 5 (List.replicate 13 0) (by decide)
  let six : Bus := plbusInit 6 (List.replicate 13 0) (by decide)
  obtain ⟨ret, bytes, sender', hsend, -, haddressed⟩ :=
    addressing_iff (plbusInit 1 (List.replicate 13 0) (by decide)) 5 [0x11]
      (fun data => (0, ⟨data, rfl⟩)) (by decide) {r | r = five ∨ r = six}
      (by rintro r (rfl | rfl) <;> exact ⟨rfl, by decide⟩)
  have hall := (haddressed (by decide)).mpr (Or.inl (by decide))
  refine ⟨ret, bytes, sender', hsend, (hall five (Or.inl rfl)).mpr rfl, fun htakes => ?_⟩
  exact absurd ((hall six (Or.inr rfl)).mp htakes) (by decide)

/-- A frame for node 261: node 5 takes it and node 261 does not. -/
theorem address_truncated : ∃ ret bytes sender',
    send (plbusInit 1 (List.replicate 13 0) (by decide)) 261 [0x11]
        (fun data => (0, ⟨data, rfl⟩)) = some (⟨ret, [(bytes, 9)]⟩, sender') ∧
    TakesCrc (puts (plbusInit 5 (List.replicate 13 0) (by decide)) bytes) ∧
    ¬TakesCrc (puts (plbusInit 261 (List.replicate 13 0) (by decide)) bytes) := by
  exact ⟨_, _, _, rfl, by decide, by decide⟩

end MyLibraries.Plbus
