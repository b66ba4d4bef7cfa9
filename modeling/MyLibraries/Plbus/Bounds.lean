import MyLibraries.Core.Run
import MyLibraries.Plbus.RoundTrip

/-!
# The bounds of the buffer of `plbus`

The checksum is taken from the payload on, over four bytes more than the payload has. So
`plbus_poll` reads the four bytes behind the frame, and for a frame that was longer than
the buffer also the bytes that `plbus_put` dropped; `plbus_send` reads them too, and it
copies as many bytes as it is told to. `run_inside_iff` says which runs stay in the buffer:
those that take a checksum only when the count leaves four bytes of the buffer, and send
only what leaves twelve.
-/

namespace MyLibraries.Plbus

open Memory Run

/-- A call; a send has a 16-bit size. -/
inductive Event
  | put (byte : UInt8)
  | poll (onReceive : Option Callback)
  | send (dst : UInt16) (data : { data : List UInt8 // data.length < 2 ^ 16 })
      (onTransmit : Callback)

/-- One call, with the sizes that it called `on_receive` with. -/
def step (bus : Bus) : Event → Option (List Nat × Bus)
  | .put byte => some ([], put bus byte)
  | .poll onReceive => (poll bus onReceive).map fun r => (r.1.calls.map Prod.snd, r.2)
  | .send dst data onTransmit => (send bus dst data.1 onTransmit).map fun r => ([], r.2)

/-- `plbus_poll` takes the checksum: the size in the buffer agrees with the count, and the
address is ours. -/
def TakesCrc (bus : Bus) : Prop :=
  bus.inSync = true ∧ (loadWord bus.rxBuffer 4 2).map (· + 8) = some bus.rxCnt.toNat ∧
    (loadWord bus.rxBuffer 1 1 = some broadcast.toNat ∨
      loadWord bus.rxBuffer 1 1 = some bus.ownAddress.toNat)

instance : DecidablePred TakesCrc := fun _ => inferInstanceAs (Decidable (_ ∧ _ ∧ _))

/-- The call has the bytes that it reads in the buffer. -/
def Inside (bus : Bus) : Event → Prop
  | .put _ => True
  | .poll _ => TakesCrc bus → bus.rxCnt.toNat + 4 ≤ bus.rxBuffer.length
  | .send _ data _ => 12 + data.1.length ≤ bus.rxBuffer.length

instance (bus : Bus) : DecidablePred (Inside bus)
  | .put _ => inferInstanceAs (Decidable True)
  | .poll _ => inferInstanceAs (Decidable (_ → _))
  | .send _ _ _ => inferInstanceAs (Decidable (_ ≤ _))

variable {bus bus' : Bus} {dst : UInt16} {data : List UInt8} {onReceive : Option Callback}
  {onTransmit : Callback} {reply : Reply} {p : Nat} {bs : List UInt8}

theorem write_store (h : bus.write p bs = some bus') :
    store bus.rxBuffer p bs = some bus'.rxBuffer := by
  obtain ⟨bus₁, h₁, hstore, -⟩ := write_exists bus p bs (by
    by_contra hout
    have hnone : store bus.rxBuffer p bs = none := if_neg hout
    unfold Bus.write at h
    split at h
    · cases h
    · rename_i hsome
      cases hnone.symm.trans hsome)
  rw [Option.some.inj (h.symm.trans h₁)]
  exact hstore

theorem put_length (bus : Bus) (byte : UInt8) :
    (put bus byte).rxBuffer.length = bus.rxBuffer.length := by
  unfold put
  split
  · split <;> rfl
  · split
    · exact List.length_set
    · rfl

/-! ## Polling -/

section Poll

variable (hroom : 8 ≤ bus.rxBuffer.length)
include hroom

theorem poll_eq : ∃ size address, loadWord bus.rxBuffer 4 2 = some size ∧
    loadWord bus.rxBuffer 1 1 = some address ∧
    (TakesCrc bus ↔ bus.inSync = true ∧ size + 8 = bus.rxCnt.toNat ∧
      ¬(address ≠ broadcast.toNat ∧ address ≠ bus.ownAddress.toNat)) := by
  obtain ⟨size, hsize⟩ := loadWord_exists (m := bus.rxBuffer) (p := 4) (k := 2) (by omega)
  obtain ⟨address, haddress⟩ := loadWord_exists (m := bus.rxBuffer) (p := 1) (k := 1)
    (by omega)
  refine ⟨size, address, hsize, haddress, ?_⟩
  simp only [TakesCrc, hsize, haddress, Option.map_some, Option.some.injEq]
  exact and_congr Iff.rfl (and_congr Iff.rfl (by omega))

theorem poll_waits (onReceive : Option Callback) (h : ¬TakesCrc bus) :
    poll bus onReceive = some (⟨0, []⟩, bus) := by
  obtain ⟨size, address, hsize, haddress, htakes⟩ := poll_eq hroom
  rw [htakes] at h
  unfold poll
  split
  · rfl
  · rename_i hs
    simp only [hsize, haddress, Option.bind_eq_bind, some_bind]
    split
    · rfl
    · rw [if_pos]
      by_contra hmine
      exact h ⟨by simpa using hs, by omega, hmine⟩

/-- The checksum reads beyond the buffer. -/
theorem poll_outside (onReceive : Option Callback) (h : TakesCrc bus)
    (hout : ¬bus.rxCnt.toNat + 4 ≤ bus.rxBuffer.length) : poll bus onReceive = none := by
  obtain ⟨size, address, hsize, haddress, htakes⟩ := poll_eq hroom
  obtain ⟨hs, hcount, hmine⟩ := htakes.mp h
  have hlt := bus.rxCnt.toNat_lt
  have hcovered : load bus.rxBuffer 8 (wrap 16 (size + 1 + 1 + 2)) = none := by
    rw [wrap_of_lt (by omega)]
    exact if_neg (by omega)
  simp only [poll, hs, hsize, haddress, hcovered, Option.bind_eq_bind, some_bind,
    Option.bind_none]
  rw [if_neg (by decide), if_neg (by omega), if_neg hmine]

/-- With four bytes behind the frame all that is read and written is in the buffer. -/
theorem poll_inside (onReceive : Option Callback) (h : TakesCrc bus)
    (hin : bus.rxCnt.toNat + 4 ≤ bus.rxBuffer.length) :
    ∃ reply bus', poll bus onReceive = some (reply, bus') ∧
      (∀ size ∈ reply.calls.map Prod.snd, size + 8 ≤ bus.rxBuffer.length) ∧
      bus'.rxBuffer.length = bus.rxBuffer.length := by
  obtain ⟨size, address, hsize, haddress, htakes⟩ := poll_eq hroom
  obtain ⟨hs, hcount, hmine⟩ := htakes.mp h
  have hlt := bus.size_lt
  obtain ⟨covered, hcovered⟩ := load_exists (m := bus.rxBuffer) (p := 8)
    (n := wrap 16 (size + 1 + 1 + 2)) (by rw [wrap_of_lt (by omega)]; omega)
  obtain ⟨crc, hcrc⟩ := loadWord_exists (m := bus.rxBuffer) (p := 2) (k := 2) (by omega)
  simp only [poll, hs, hsize, haddress, hcovered, hcrc, Option.bind_eq_bind, some_bind]
  rw [if_neg (by decide), if_neg (by omega), if_neg hmine]
  split
  · exact ⟨_, _, rfl, by simp, rfl⟩
  · cases onReceive with
    | none => exact ⟨_, _, rfl, by simp, rfl⟩
    | some onReceive =>
      obtain ⟨payload, hpayload⟩ := load_exists (m := bus.rxBuffer) (p := 8) (n := size)
        (by omega)
      have hlen := load_length hpayload
      obtain ⟨error, payload', hcall⟩ : ∃ error payload', onReceive payload = (error, payload') :=
        ⟨_, _, rfl⟩
      have hlen' := payload'.property
      obtain ⟨bus₁, hw₁, hst₁, -, -⟩ := write_exists { bus with inSync := false } 8 payload'.val
        (by show _ ≤ bus.rxBuffer.length; omega)
      have hsize₁ : bus₁.rxBuffer.length = bus.rxBuffer.length := store_length hst₁
      obtain ⟨bus₂, hw₂, hst₂, -, -⟩ := write_exists bus₁ 6 (leBytes 2 error.toNat)
        (by rw [leBytes_length]; omega)
      refine ⟨⟨0, [(payload, size)]⟩, bus₂, ?_, ?_, (store_length hst₂).trans hsize₁⟩
      · simp only [hpayload, hcall, hw₁, hw₂, some_bind]
      · simp only [List.map_cons, List.map_nil, List.mem_singleton, forall_eq]
        omega

end Poll

/-! ## Sending -/

/-- A send that stays in the buffer has twelve bytes more than its data. -/
theorem send_inside (h : send bus dst data onTransmit = some (reply, bus')) :
    12 + data.length ≤ bus.rxBuffer.length ∧
      bus'.rxBuffer.length = bus.rxBuffer.length := by
  simp only [send, Option.bind_eq_bind] at h
  obtain ⟨bus₁, h₁, h⟩ := Option.bind_eq_some_iff.mp h
  obtain ⟨bus₂, h₂, h⟩ := Option.bind_eq_some_iff.mp h
  obtain ⟨bus₃, h₃, h⟩ := Option.bind_eq_some_iff.mp h
  obtain ⟨bus₄, h₄, h⟩ := Option.bind_eq_some_iff.mp h
  obtain ⟨size, hsize, h⟩ := Option.bind_eq_some_iff.mp h
  obtain ⟨covered, hcovered, h⟩ := Option.bind_eq_some_iff.mp h
  obtain ⟨bus₅, h₅, h⟩ := Option.bind_eq_some_iff.mp h
  obtain ⟨frame, hframe, h⟩ := Option.bind_eq_some_iff.mp h
  obtain ⟨bus₆, h₆, h⟩ := Option.bind_eq_some_iff.mp h
  cases h
  have hlen₁ := store_length (write_store h₁)
  have hlen₂ := store_length (write_store h₂)
  have hlen₃ := store_length (write_store h₃)
  have hlen₄ := store_length (write_store h₄)
  have hlen₅ := store_length (write_store h₅)
  have hlen₆ := store_length (write_store h₆)
  refine ⟨?_, by omega⟩
  have hlt := bus₃.size_lt
  have hdata := store_bound (write_store h₄)
  have hsize' : loadWord bus₄.rxBuffer 4 2 = some data.length := by
    refine loadWord_of_at ?_ (by omega)
    rw [at_store_frame (write_store h₄) (by simp)]
    exact at_of_store (write_store h₃)
  obtain rfl := Option.some.inj (hsize.symm.trans hsize')
  have hbound := load_bound hcovered
  rw [wrap_of_lt (by omega)] at hbound
  omega

/-! ## Runs -/

theorem step_inside {n : Nat} (hn : 8 ≤ n) (bus : Bus) (e : Event)
    (hlen : bus.rxBuffer.length = n) (h : Inside bus e) :
    ∃ sizes bus', step bus e = some (sizes, bus') ∧ (∀ size ∈ sizes, size + 8 ≤ n) ∧
      bus'.rxBuffer.length = n := by
  cases e with
  | put byte => exact ⟨[], put bus byte, rfl, by simp, (put_length bus byte).trans hlen⟩
  | poll onReceive =>
    by_cases htakes : TakesCrc bus
    · obtain ⟨reply, bus', hpoll, hsizes, hlen'⟩ :=
        poll_inside (by omega) onReceive htakes (h htakes)
      refine ⟨_, bus', by rw [step, hpoll, Option.map_some], ?_, hlen'.trans hlen⟩
      rw [← hlen]
      exact hsizes
    · refine ⟨[], bus, ?_, by simp, hlen⟩
      rw [step, poll_waits (by omega) onReceive htakes, Option.map_some, List.map_nil]
  | send dst data onTransmit =>
    obtain ⟨behind, hbehind⟩ := load_exists (m := bus.rxBuffer) (p := 8 + data.1.length) (n := 4)
      (by have : 12 + data.1.length ≤ bus.rxBuffer.length := h; omega)
    obtain ⟨ret, error, bus', hsend⟩ := send_frame dst onTransmit h hbehind
    refine ⟨[], bus', by rw [step, hsend, Option.map_some], by simp, ?_⟩
    exact (send_inside hsend).2.trans hlen

theorem step_outside {n : Nat} (hn : 8 ≤ n) (bus : Bus) (e : Event)
    (hlen : bus.rxBuffer.length = n) (h : ¬Inside bus e) : step bus e = none := by
  cases e with
  | put byte => exact absurd trivial h
  | poll onReceive =>
    obtain ⟨htakes, hout⟩ := Classical.not_imp.mp h
    rw [step, poll_outside (by omega) onReceive htakes hout, Option.map_none]
  | send dst data onTransmit =>
    have hnone : send bus dst data.1 onTransmit = none := by
      by_contra hsome
      obtain ⟨⟨reply, bus'⟩, hsend⟩ := Option.ne_none_iff_exists'.mp hsome
      exact h (send_inside hsend).1
    rw [step, hnone, Option.map_none]

/-- **The runs that stay in the buffer**, and call `on_receive` with sizes that it has. -/
theorem run_inside_iff (bus : Bus) (hroom : 8 ≤ bus.rxBuffer.length) (events : List Event) :
    (∃ replies bus', run step bus events = some (replies, bus') ∧
      ∀ sizes ∈ replies, ∀ size ∈ sizes, size ≤ bus.rxBuffer.length - 8) ↔
    AlongRun step Inside bus events := by
  have hsub (size : Nat) : size ≤ bus.rxBuffer.length - 8 ↔ size + 8 ≤ bus.rxBuffer.length := by
    omega
  simp only [hsub]
  exact run_iff_alongRun (fun bus e => step_inside hroom bus e)
    (fun bus e => step_outside hroom bus e) rfl

/-- Sending a byte, then receiving one, in a buffer of 13 bytes. -/
theorem run_inside_one_byte : ∃ replies bus',
    run step (plbusInit 5 (List.replicate 13 0) (by decide))
      ([.send 7 ⟨[0x22], by decide⟩ fun data => (0, ⟨data, rfl⟩)] ++
        [0xA5, 5, 0xC1, 0xC1, 1, 0, 0, 0, 0x11].map .put ++
        [.poll (some fun data => (0, ⟨data, rfl⟩))]) = some (replies, bus') ∧
    ∀ sizes ∈ replies, ∀ size ∈ sizes, size ≤ 5 :=
  (run_inside_iff (plbusInit 5 (List.replicate 13 0) (by decide)) (by decide) _).mpr
    (by decide +kernel)

/-- An empty frame for all nodes, in a buffer of 8 bytes: the checksum is of the four bytes
behind the buffer. -/
theorem crc_behind_buffer : ¬∃ replies bus',
    run step (plbusInit 5 (List.replicate 8 0) (by decide))
      ([0xA5, 0, 0, 0, 0, 0, 0, 0].map .put ++ [.poll none]) = some (replies, bus') ∧
    ∀ sizes ∈ replies, ∀ size ∈ sizes, size ≤ 0 := by
  rintro ⟨replies, bus', hrun, -⟩
  have hnone : run step (plbusInit 5 (List.replicate 8 0) (by decide))
      ([0xA5, 0, 0, 0, 0, 0, 0, 0].map .put ++ [.poll none]) = none := by rfl
  rw [hnone] at hrun
  cases hrun

end MyLibraries.Plbus
