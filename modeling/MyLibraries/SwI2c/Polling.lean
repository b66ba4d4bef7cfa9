import MyLibraries.SwI2c.Success

/-!
# Polling

Both loops test `--attempts` after the body, and `attempts` says afterwards how the loop has
ended. For `attempts` = 0 the body is executed nevertheless, up to 256 times
(`limit`). `SW_I2C_WriteWithFlagPooling` takes the last attempt for a timeout even if it
has seen the flag, and a device that is not there for success.
-/

namespace MyLibraries.SwI2c

open TwoWire

/-- How often the body of `do { .. } while (.. && --attempts)` is executed at most. -/
def limit (attempts : UInt8) : Nat := (attempts - 1).toNat + 1

theorem limit_eq {attempts : UInt8} (h : attempts ≠ 0) : limit attempts = attempts.toNat :=
  toNat_sub_one h

namespace Driver

variable (d : Driver)

/-- A repeated start and the read address. -/
def pollEvents (address : UInt8) : List Event := d.reStartEvents ++ d.byteEvents (address ||| 0x01)

/-- After `k` rounds of the same events. -/
def rounds (events : List Event) (bus : Bus) (k : Nat) : Bus :=
  bus ++ (List.replicate k events).flatten

/-- The answer to the read address that is sent next. -/
def pollAnswer (address : UInt8) (bus : Bus) : UInt16 :=
  d.answer (bus ++ d.reStartEvents) (address ||| 0x01)

variable {d} {bus past : Bus} {address attempts flagToPooling : UInt8}

theorem rounds_zero (events : List Event) (bus : Bus) : rounds events bus 0 = bus :=
  List.append_nil bus

theorem rounds_one (events : List Event) (bus : Bus) : rounds events bus 1 = bus ++ events := by
  rw [rounds, List.replicate_one, List.flatten_singleton]

theorem rounds_succ (events : List Event) (bus : Bus) (k : Nat) :
    rounds events (bus ++ events) k = rounds events bus (k + 1) := by
  rw [rounds, rounds, List.replicate_succ, List.flatten_cons, List.append_assoc]

/-- One round of the loop over the read addresses. -/
theorem poolingLoop_succ (address attempts : UInt8) (bus : Bus) :
    d.poolingLoop address attempts bus =
      if d.pollAnswer address bus = 0 then (.success, attempts, bus ++ d.pollEvents address)
      else if attempts - 1 = 0 then
        (.ofUInt16 (d.pollAnswer address bus), attempts - 1, bus ++ d.pollEvents address)
      else d.poolingLoop address (attempts - 1) (bus ++ d.pollEvents address) := by
  rw [poolingLoop, reStart_eq, write_eq]
  simp only [ofUInt16_eq_success]
  rw [pollEvents, ← List.append_assoc]
  split
  · rename_i hack
    have hanswer : d.pollAnswer address bus = 0 := hack
    rw [if_pos hanswer, ofUInt16_eq_success.mpr hack]
  · rename_i hack
    have hanswer : ¬ d.pollAnswer address bus = 0 := hack
    rw [if_neg hanswer]
    split
    · rfl
    · rfl

/-- **The loop over the read addresses**: `k + 1` of them are sent, all but the last are
refused, and the last is only if there are no more attempts. -/
theorem poolingLoop_eq (address attempts : UInt8) (bus : Bus) :
    ∃ (k : Nat) (result : I2CResult) (left : UInt8),
      d.poolingLoop address attempts bus =
        (result, left, rounds (d.pollEvents address) bus (k + 1)) ∧
      k < limit attempts ∧
      (∀ j < k, d.pollAnswer address (rounds (d.pollEvents address) bus j) ≠ 0) ∧
      (result = .success ↔ d.pollAnswer address (rounds (d.pollEvents address) bus k) = 0) ∧
      (attempts ≠ 0 → (result = .success ↔ left ≠ 0)) := by
  generalize hm : (attempts - 1).toNat = m
  induction m using Nat.strongRecOn generalizing attempts bus with
  | ind m ih =>
    rw [poolingLoop_succ, ← rounds_one]
    by_cases hack : d.pollAnswer address bus = 0
    · rw [if_pos hack]
      refine ⟨0, _, _, rfl, Nat.succ_pos _, fun j hj => absurd hj (Nat.not_lt_zero j), ?_, ?_⟩
      · rw [rounds_zero]
        exact ⟨fun _ => hack, fun _ => rfl⟩
      · exact fun hne => ⟨fun _ => hne, fun _ => rfl⟩
    · rw [if_neg hack]
      by_cases hlast : attempts - 1 = 0
      · rw [if_pos hlast]
        refine ⟨0, _, _, rfl, Nat.succ_pos _, fun j hj => absurd hj (Nat.not_lt_zero j), ?_, ?_⟩
        · rw [rounds_zero, ofUInt16_eq_success]
        · rw [ofUInt16_eq_success]
          exact fun _ => ⟨fun h => absurd h hack, fun h => absurd hlast h⟩
      · have hless := toNat_sub_one hlast
        obtain ⟨k, result, left, hloop, hk, hbefore, hresult, hleft⟩ :=
          ih _ (by omega) (attempts - 1) (rounds (d.pollEvents address) bus 1) rfl
        simp only [rounds_one, rounds_succ] at hloop hresult hbefore
        rw [if_neg hlast, rounds_one]
        refine ⟨k + 1, result, left, hloop, ?_, ?_, hresult, fun _ => hleft hlast⟩
        · rw [limit] at hk ⊢
          omega
        · intro j hj
          cases j with
          | zero =>
            rw [rounds_zero]
            exact hack
          | succ j => exact hbefore j (by omega)

/-- One round of the loop over the flags. -/
theorem flagLoop_succ (flagToPooling attempts : UInt8) (bus : Bus) :
    d.flagLoop flagToPooling attempts bus =
      if attempts - 1 = 0 then (attempts - 1, bus ++ d.readEvents true)
      else if d.received bus &&& flagToPooling = 0 then
        d.flagLoop flagToPooling (attempts - 1) (bus ++ d.readEvents true)
      else (attempts - 1, bus ++ d.readEvents true) := by
  rw [flagLoop, read_eq]
  simp only [UInt8.toUInt8_toUInt16]
  split
  · rfl
  · rfl

/-- **The loop over the flags**: `k + 1` of them are read, all but the last are not set, and
the loop ends before the attempts do only with one that is. -/
theorem flagLoop_eq (flagToPooling attempts : UInt8) (bus : Bus) :
    ∃ (k : Nat) (left : UInt8),
      d.flagLoop flagToPooling attempts bus = (left, rounds (d.readEvents true) bus (k + 1)) ∧
      k < limit attempts ∧
      (∀ j < k, d.received (rounds (d.readEvents true) bus j) &&& flagToPooling = 0) ∧
      (left = 0 ↔ k + 1 = limit attempts) ∧
      (left ≠ 0 → d.received (rounds (d.readEvents true) bus k) &&& flagToPooling ≠ 0) := by
  generalize hm : (attempts - 1).toNat = m
  induction m using Nat.strongRecOn generalizing attempts bus with
  | ind m ih =>
    rw [flagLoop_succ, ← rounds_one]
    by_cases hlast : attempts - 1 = 0
    · rw [if_pos hlast]
      refine ⟨0, _, rfl, Nat.succ_pos _, fun j hj => absurd hj (Nat.not_lt_zero j), ?_, ?_⟩
      · rw [limit, hlast]
        exact ⟨fun _ => rfl, fun _ => rfl⟩
      · exact fun h => absurd hlast h
    · have hless := toNat_sub_one hlast
      rw [if_neg hlast]
      by_cases hflag : d.received bus &&& flagToPooling = 0
      · obtain ⟨k, left, hloop, hk, hbefore, hleft, hset⟩ :=
          ih _ (by omega) (attempts - 1) (rounds (d.readEvents true) bus 1) rfl
        simp only [rounds_one, rounds_succ] at hloop hset hbefore
        rw [if_pos hflag, rounds_one]
        refine ⟨k + 1, left, hloop, ?_, ?_, ?_, hset⟩
        · rw [limit] at hk ⊢
          omega
        · intro j hj
          cases j with
          | zero =>
            rw [rounds_zero]
            exact hflag
          | succ j => exact hbefore j (by omega)
        · rw [hleft, limit, limit]
          omega
      · rw [if_neg hflag]
        refine ⟨0, _, rfl, Nat.succ_pos _, fun j hj => absurd hj (Nat.not_lt_zero j), ?_, ?_⟩
        · rw [limit]
          exact ⟨fun h => absurd h hlast, fun h => by omega⟩
        · rw [rounds_zero]
          exact fun _ => hflag

end Driver

/-! ## What the bus sees of the loops -/

variable {d : Driver} {past bus : Bus} {address reg attempts flagToPooling : UInt8}
  {buf : List UInt8} {value : Option UInt8}

/-- What is written before the reading. -/
def writes (reg : UInt8) (value : Option UInt8) : List UInt8 :=
  (if reg ≠ 0 then [reg] else []) ++ value.toList

/-- What the `k`-th reading of the flag gives. -/
def Driver.flag (d : Driver) (past : Bus) (address reg : UInt8) (value : Option UInt8) (k : Nat) :
    UInt8 :=
  d.received (Driver.rounds (d.readEvents true) (d.readdressed past address (writes reg value)) k)

end MyLibraries.SwI2c
