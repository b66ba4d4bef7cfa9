import MyLibraries.Core.Run
import MyLibraries.Plbus.Frame

/-!
# Resynchronisation of `plbus`

`plbus_poll` leaves `in_sync` set when a frame is foreign or its checksum is wrong. The
bytes of the frames that follow are then counted on top of it: the size in the buffer
stays that of the frame that was not taken, the count is beyond its end, and every later
poll finds that receiving is in progress (`receive_stuck`), until the 16-bit count wraps
around. `resync` says that a frame is delivered as long as all frames before it were
accepted, and is not delivered otherwise, if fewer than `2 ^ 16` bytes were sent.
-/

namespace MyLibraries.Plbus

open Memory Run

/-- The bytes of the frames. -/
def wireLength (fs : List Frame) : Nat := (fs.map fun f => f.bytes.length).sum

/-- In sync, with the header of a frame of size `n` and as many bytes or more. -/
structure Stuck (n : Nat) (bus : Bus) : Prop where
  inSync : bus.inSync = true
  size : loadWord bus.rxBuffer 4 2 = some n
  count : 8 + n ≤ bus.rxCnt.toNat

variable {bus bus' : Bus} {f : Frame} {fs : List Frame} {n : Nat} {onReceive : Callback}

/-! ## A receiver that stays in sync -/

theorem Heard.stuck (hh : Heard bus f) (hcount : f.payload.length < 2 ^ 16) :
    Stuck f.payload.length bus :=
  ⟨hh.inSync, (hh.loads hcount).2.2, Nat.le_of_eq hh.count.symm⟩

/-- **It stays in sync with every frame.** -/
theorem receive_stuck (onReceive : Callback) (h : Stuck n bus)
    (hcount : bus.rxCnt.toNat + f.bytes.length < 2 ^ 16) :
    receive onReceive bus f = some (⟨0, []⟩, puts bus f.bytes) ∧ Stuck n (puts bus f.bytes) ∧
      (puts bus f.bytes).rxCnt.toNat = bus.rxCnt.toNat + f.bytes.length := by
  have hlen := f.bytes_length
  have hbelow := h.count
  obtain ⟨hs, hc, hb, -⟩ := puts_inSync bus f.bytes h.inSync hcount
  have hsize : loadWord (puts bus f.bytes).rxBuffer 4 2 = some n := by
    refine loadWord_of_at ?_ (loadWord_lt h.size)
    rw [hb, at_fill_below (by rw [leBytes_length]; omega)]
    exact at_of_loadWord h.size
  refine ⟨?_, ⟨hs, hsize, by omega⟩, hc⟩
  simp only [receive, poll, hs, hsize, Option.bind_eq_bind, some_bind]
  rw [if_neg (by decide), if_pos (by omega)]

/-- The run form: no later frame is delivered. -/
theorem run_stuck (onReceive : Callback) (fs : List Frame) (h : Stuck n bus)
    (hcount : bus.rxCnt.toNat + wireLength fs < 2 ^ 16) :
    ∃ bus', run (receive onReceive) bus fs = some (fs.map fun _ => ⟨0, []⟩, bus') ∧
      Stuck n bus' ∧ bus'.rxCnt.toNat = bus.rxCnt.toNat + wireLength fs := by
  induction fs generalizing bus with
  | nil => exact ⟨bus, rfl, h, rfl⟩
  | cons f fs ih =>
    simp only [wireLength, List.map_cons, List.sum_cons] at hcount ih ⊢
    obtain ⟨hreceive, hstuck, hc⟩ := receive_stuck (f := f) onReceive h (by omega)
    obtain ⟨bus', hrun, hstuck', hc'⟩ := ih hstuck (by omega)
    refine ⟨bus', ?_, hstuck', by omega⟩
    rw [run_cons, hreceive, some_bind, hrun, some_bind]

/-! ## A receiver out of sync -/

/-- A frame that is not accepted leaves the receiver in sync. -/
theorem receive_refused (onReceive : Callback) (hidle : bus.inSync = false)
    (hroom : 8 ≤ bus.rxBuffer.length) (hcount : f.bytes.length < 2 ^ 16)
    (hframe : Foreign bus f ∨ Fits bus f)
    (hrefused : ¬ Accepts bus f) :
    ∃ reply bus', receive onReceive bus f = some (reply, bus') ∧
      Stuck f.payload.length bus' ∧ bus'.rxCnt.toNat = f.bytes.length := by
  rw [f.bytes_length] at hcount ⊢
  obtain ⟨hheard, -, -⟩ := puts_frame (f := f) hidle hcount hroom
  have hstuck := hheard.stuck (by omega)
  by_cases hforeign : Foreign bus f
  · exact ⟨_, _, receive_foreign hidle onReceive hcount hroom hforeign, hstuck, hheard.count⟩
  · have hfits := hframe.resolve_left hforeign
    have hcrc : ¬ CrcRight bus f := fun h => hrefused ⟨hforeign, hfits, h⟩
    exact ⟨_, _, receive_corrupted hidle hforeign hfits onReceive hcrc,
      ⟨hstuck.inSync, hstuck.size, hstuck.count⟩, hheard.count⟩

theorem run_accepted (hidle : bus.inSync = false)
    (haccepts : AlongRun (receive onReceive) Accepts bus fs) :
    ∃ bus', run (receive onReceive) bus fs = some (fs.map delivery, bus') ∧
      bus'.inSync = false := by
  induction fs generalizing bus with
  | nil => exact ⟨bus, rfl, hidle⟩
  | cons f fs ih =>
    obtain ⟨bus₁, hreceive, hidle₁, -, -⟩ := receive_accepted hidle onReceive
      haccepts.1
    obtain ⟨bus', hrun, hidle'⟩ := ih hidle₁ (haccepts.2 _ _ hreceive)
    refine ⟨bus', ?_, hidle'⟩
    rw [run_cons, hreceive, some_bind, hrun, some_bind, List.map_cons]

/-- One frame that is not accepted, and the receiver is in sync at the end. -/
theorem run_refused (hidle : bus.inSync = false) (hroom : 8 ≤ bus.rxBuffer.length)
    (hcount : wireLength fs < 2 ^ 16) (hframes : ∀ g ∈ fs, Foreign bus g ∨ Fits bus g)
    (hrefused : ¬ AlongRun (receive onReceive) Accepts bus fs) :
    ∃ results bus' n, run (receive onReceive) bus fs = some (results, bus') ∧ Stuck n bus' ∧
      bus'.rxCnt.toNat ≤ wireLength fs := by
  induction fs generalizing bus with
  | nil => exact absurd trivial hrefused
  | cons f fs ih =>
    simp only [wireLength, List.map_cons, List.sum_cons] at hcount ih ⊢
    by_cases hf : Accepts bus f
    · obtain ⟨bus₁, hreceive, hidle₁, hown, hlength⟩ := receive_accepted hidle
        onReceive hf
      have hrest : ¬ AlongRun (receive onReceive) Accepts bus₁ fs := by
        intro hrest
        refine hrefused ⟨hf, fun reply bus₂ h₂ => ?_⟩
        cases hreceive.symm.trans h₂
        exact hrest
      have hframes₁ : ∀ g ∈ fs, Foreign bus₁ g ∨ Fits bus₁ g := by
        intro g hg
        unfold Foreign Fits
        rw [hown, hlength]
        exact hframes g (List.mem_cons_of_mem _ hg)
      obtain ⟨results, bus', n, hrun, hstuck, hc⟩ := ih hidle₁ (by omega) (by omega) hframes₁
        hrest
      refine ⟨delivery f :: results, bus', n, ?_, hstuck, by omega⟩
      rw [run_cons, hreceive, some_bind, hrun, some_bind]
    · obtain ⟨reply, bus₁, hreceive, hstuck, hc⟩ := receive_refused onReceive
        hidle hroom (by omega) (hframes f List.mem_cons_self) hf
      obtain ⟨bus', hrun, hstuck', hc'⟩ := run_stuck onReceive fs hstuck (by
        unfold wireLength
        omega)
      refine ⟨reply :: fs.map fun _ => ⟨0, []⟩, bus', _, ?_, hstuck', ?_⟩
      · rw [run_cons, hreceive, some_bind, hrun, some_bind]
      · unfold wireLength at hc'
        omega

/-- **Resynchronisation.** A receiver out of sync, as `plbus_init` leaves it, takes the
frames `fs`. If each of them is accepted when it comes, it delivers every one of them, and
a next frame that it accepts. If one of them is not, and fewer than `2 ^ 16` bytes are
sent, it does not deliver the next frame, whatever that is. -/
theorem resync (onReceive : Callback) (bus : Bus) (hidle : bus.inSync = false)
    (fs : List Frame) (f : Frame) :
    (AlongRun (receive onReceive) Accepts bus fs →
      ∃ bus', run (receive onReceive) bus fs = some (fs.map delivery, bus') ∧
        (Accepts bus' f → ∃ bus'', receive onReceive bus' f = some (delivery f, bus''))) ∧
    (¬ AlongRun (receive onReceive) Accepts bus fs → 8 ≤ bus.rxBuffer.length →
      (∀ g ∈ fs, Foreign bus g ∨ Fits bus g) → wireLength (fs ++ [f]) < 2 ^ 16 →
      ∃ results bus' bus'', run (receive onReceive) bus fs = some (results, bus') ∧
        receive onReceive bus' f = some (⟨0, []⟩, bus'')) := by
  constructor
  · intro haccepts
    obtain ⟨bus', hrun, hidle'⟩ := run_accepted hidle haccepts
    refine ⟨bus', hrun, fun hf => ?_⟩
    obtain ⟨bus'', hreceive, -⟩ := receive_accepted hidle' onReceive hf
    exact ⟨bus'', hreceive⟩
  · intro hrefused hroom hframes hcount
    simp only [wireLength, List.map_append, List.sum_append, List.map_cons, List.map_nil,
      List.sum_cons, List.sum_nil] at hcount
    obtain ⟨results, bus', n, hrun, hstuck, hc⟩ := run_refused hidle hroom
      (by unfold wireLength; omega) hframes hrefused
    unfold wireLength at hc
    obtain ⟨hreceive, -, -⟩ := receive_stuck (f := f) onReceive hstuck (by omega)
    exact ⟨results, bus', _, hrun, hreceive⟩

/-- The same good frame twice: both are delivered. -/
theorem resync_good_frames : ∃ bus' bus'',
    run (receive fun data => (0, ⟨data, rfl⟩))
      (init (plbusInit 5 (List.replicate 16 0) (by decide)))
      [⟨5, crc16 [0x11, 0, 0, 0, 0], 0, [0x11]⟩] =
        some ([⟨0, [([0x11], 1)]⟩], bus') ∧
    receive (fun data => (0, ⟨data, rfl⟩)) bus' ⟨5, crc16 [0x11, 0, 0, 0, 0], 0, [0x11]⟩ =
      some (⟨0, [([0x11], 1)]⟩, bus'') := by
  obtain ⟨bus', hrun, hnext⟩ := (resync (fun data => (0, ⟨data, rfl⟩))
    (init (plbusInit 5 (List.replicate 16 0) (by decide))) rfl
    [⟨5, crc16 [0x11, 0, 0, 0, 0], 0, [0x11]⟩]
    ⟨5, crc16 [0x11, 0, 0, 0, 0], 0, [0x11]⟩).1 (by decide)
  have haccepts : Accepts bus' ⟨5, crc16 [0x11, 0, 0, 0, 0], 0, [0x11]⟩ := by
    cases hrun
    decide
  obtain ⟨bus'', hreceive⟩ := hnext haccepts
  exact ⟨bus', bus'', hrun, hreceive⟩

/-- A frame for node 6, and then the good frame: node 5 does not deliver it. -/
theorem resync_broken : ∃ bus' bus'',
    run (receive fun data => (0, ⟨data, rfl⟩))
      (init (plbusInit 5 (List.replicate 16 0) (by decide))) [⟨6, 0, 0, [0x22]⟩] =
        some ([⟨0, []⟩], bus') ∧
    Accepts bus' ⟨5, crc16 [0x11, 0, 0, 0, 0], 0, [0x11]⟩ ∧
    receive (fun data => (0, ⟨data, rfl⟩)) bus' ⟨5, crc16 [0x11, 0, 0, 0, 0], 0, [0x11]⟩ =
      some (⟨0, []⟩, bus'') :=
  ⟨_, _, rfl, by decide, rfl⟩

end MyLibraries.Plbus
