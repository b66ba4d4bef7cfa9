import Mathlib.Data.List.Basic

/-!
# Buses with time slots

One line, which a master and any number of stations hold low or release. A falling edge of the
master opens a slot: each station looks at the line once, a time of its own after the edge, and
may hold it low from the edge on. A long low is a reset, which the stations answer with a
pulse. The master knows the stations by the level of the line only.

`slot_eq` and `reset_eq` say what a low of the master and a high after it do to all stations;
`slot_level` and `presence_level` say what the master can see meanwhile.
-/

namespace MyLibraries.SlotBus

/-- What a station does with the slots: whether it holds the line low in the next one, and
what it makes of a reset and of the level that it has seen. -/
structure Logic (σ : Type) where
  reset : σ → σ
  pulls : σ → Bool
  slot : Bool → σ → σ

/-- When a station looks at the line and how long it holds it low, from the falling edge on;
how long a low makes a reset; and when its answer begins, from the rising edge on, and how
long it takes. -/
structure Timing where
  sample : Nat
  hold : Nat
  resetLow : Nat
  presenceAfter : Nat
  presenceFor : Nat
  deriving DecidableEq, Repr

/-- What a station does to the line. -/
inductive Driving
  | released
  | slot
  | presence
  deriving DecidableEq, Repr

structure Station (σ : Type) where
  timing : Timing
  state : σ
  driving : Driving

/-- The stations, what the master does to the line, and the times since the falling edge of
the last slot and since the master released the line. -/
structure Bus (σ : Type) where
  stations : List (Station σ)
  low : Bool
  fallen : Nat
  risen : Nat

variable {σ : Type} {logic : Logic σ} {b : Bus σ} {s : Station σ} {a c d t : Nat}

/-- The station holds the line low. -/
def Station.holds (s : Station σ) (fallen risen : Nat) : Bool :=
  match s.driving with
  | .released => false
  | .slot => decide (fallen < s.timing.hold)
  | .presence =>
    decide (s.timing.presenceAfter ≤ risen ∧ risen < s.timing.presenceAfter + s.timing.presenceFor)

/-- The level of the line. -/
def Bus.level (b : Bus σ) : Bool :=
  !b.low && b.stations.all fun s => !s.holds b.fallen b.risen

/-- The level at the time `t` after the falling edge, if the master does nothing until then. -/
def Bus.levelAt (b : Bus σ) (t : Nat) : Bool :=
  Bus.level { b with fallen := t, risen := b.risen + (t - b.fallen) }

/-- The station begins a slot. -/
def Station.fall (logic : Logic σ) (s : Station σ) : Station σ :=
  { s with driving := if logic.pulls s.state then .slot else .released }

/-- The master holds the line low. Only a falling edge opens a slot. -/
def Bus.drive (logic : Logic σ) (b : Bus σ) : Bus σ :=
  if b.level then
    { stations := b.stations.map (Station.fall logic), low := true, fallen := 0, risen := b.risen }
  else { b with low := true }

/-- The station has seen a low of this length. -/
def Station.rise (logic : Logic σ) (fallen : Nat) (s : Station σ) : Station σ :=
  if s.timing.resetLow ≤ fallen then { s with state := logic.reset s.state, driving := .presence }
  else s

/-- The master releases the line. -/
def Bus.release (logic : Logic σ) (b : Bus σ) : Bus σ :=
  if b.low then
    { b with stations := b.stations.map (Station.rise logic b.fallen), low := false, risen := 0 }
  else b

/-- The station looks at the line if it is time for it. -/
def Station.look (logic : Logic σ) (b : Bus σ) (d : Nat) (s : Station σ) : Station σ :=
  if s.driving ≠ .presence ∧ b.fallen ≤ s.timing.sample ∧ s.timing.sample < b.fallen + d then
    { s with state := logic.slot (b.levelAt s.timing.sample) s.state }
  else s

/-- Time goes by. -/
def Bus.wait (logic : Logic σ) (d : Nat) (b : Bus σ) : Bus σ :=
  { b with
    stations := b.stations.map (Station.look logic b d)
    fallen := b.fallen + d
    risen := b.risen + d }

/-- Some station holds the line low at the time `t` after the falling edge. -/
def held (logic : Logic σ) (stations : List (Station σ)) (t : Nat) : Bool :=
  stations.any fun s => logic.pulls s.state && decide (t < s.timing.hold)

/-- What a station makes of a slot whose low of the master takes the time `a`. -/
def Station.slot (logic : Logic σ) (stations : List (Station σ)) (a : Nat) (s : Station σ) :
    Station σ :=
  { s.fall logic with
    state := logic.slot (decide (a ≤ s.timing.sample) && !held logic stations s.timing.sample)
      s.state }

/-- What a station makes of a reset. -/
def Station.restart (logic : Logic σ) (s : Station σ) : Station σ :=
  { s with state := logic.reset (logic.slot false s.state), driving := .presence }

/-! ## Time -/

@[simp] theorem look_driving : (s.look logic b d).driving = s.driving := by
  unfold Station.look
  split <;> rfl

@[simp] theorem look_timing : (s.look logic b d).timing = s.timing := by
  unfold Station.look
  split <;> rfl

@[simp] theorem look_holds {fallen risen : Nat} :
    (s.look logic b d).holds fallen risen = s.holds fallen risen := by
  unfold Station.holds
  rw [look_driving, look_timing]

@[simp] theorem wait_low : (b.wait logic d).low = b.low := rfl

@[simp] theorem wait_fallen : (b.wait logic d).fallen = b.fallen + d := rfl

@[simp] theorem wait_risen : (b.wait logic d).risen = b.risen + d := rfl

/-- What stations see does not change the line. -/
theorem all_look {stations : List (Station σ)} {fallen risen : Nat} :
    ((stations.map (Station.look logic b d)).all fun s => !s.holds fallen risen) =
      stations.all fun s => !s.holds fallen risen := by
  rw [List.all_map]
  congr 1
  funext s
  simp only [Function.comp, look_holds]

theorem level_wait : (b.wait logic d).level = b.levelAt (b.fallen + d) := by
  unfold Bus.levelAt Bus.level Bus.wait
  rw [all_look, Nat.add_sub_cancel_left]

theorem levelAt_wait (ht : b.fallen + d ≤ t) : (b.wait logic d).levelAt t = b.levelAt t := by
  have hrisen : b.risen + d + (t - (b.fallen + d)) = b.risen + (t - b.fallen) := by omega
  unfold Bus.levelAt Bus.level Bus.wait
  rw [all_look, hrisen]

/-- A station looks at the line in the first part of a wait, in the second one, or not at all. -/
theorem look_look : (s.look logic b c).look logic (b.wait logic c) d = s.look logic b (c + d) := by
  rw [Station.look, look_driving, look_timing, wait_fallen]
  by_cases hd : s.driving = .presence
  · rw [if_neg (fun h => h.1 hd), Station.look, if_neg (fun h => h.1 hd), Station.look,
      if_neg (fun h => h.1 hd)]
  · by_cases hbefore : s.timing.sample < b.fallen + c
    · rw [if_neg (fun h => by omega), Station.look, Station.look]
      exact if_congr (and_congr_right fun _ => by omega) rfl rfl
    · have hnot : s.look logic b c = s := if_neg fun h => hbefore h.2.2
      rw [hnot, levelAt_wait (by omega), Station.look]
      exact if_congr (and_congr_right fun _ => by omega) rfl rfl

/-- Waiting can be done in parts. -/
theorem wait_add : b.wait logic (c + d) = (b.wait logic c).wait logic d := by
  have hstations : b.stations.map (Station.look logic b (c + d)) =
      (b.wait logic c).stations.map (Station.look logic (b.wait logic c) d) := by
    show _ = (b.stations.map _).map _
    rw [List.map_map]
    exact List.map_congr_left fun s _ => look_look.symm
  unfold Bus.wait at hstations ⊢
  rw [hstations, Nat.add_assoc, Nat.add_assoc]

/-- Stations that have looked, or have yet to look, are as they were. -/
theorem wait_eq (h : ∀ s ∈ b.stations, s.driving = .presence ∨ s.timing.sample < b.fallen ∨
    b.fallen + d ≤ s.timing.sample) :
    b.wait logic d = { b with fallen := b.fallen + d, risen := b.risen + d } := by
  have hstations : b.stations.map (Station.look logic b d) = b.stations := by
    refine (List.map_congr_left fun s hs => if_neg fun hlook => ?_).trans (List.map_id _)
    rcases h s hs with hp | hlt | hle
    · exact hlook.1 hp
    · omega
    · omega
  rw [Bus.wait, hstations]

/-! ## Slots -/

theorem drive_eq (h : b.level = true) : b.drive logic =
    ⟨b.stations.map (Station.fall logic), true, 0, b.risen⟩ := if_pos h

theorem fall_holds {fallen risen : Nat} : (s.fall logic).holds fallen risen =
    (logic.pulls s.state && decide (fallen < s.timing.hold)) := by
  unfold Station.holds Station.fall
  cases logic.pulls s.state <;> rfl

theorem all_fall {stations : List (Station σ)} {fallen risen : Nat} :
    ((stations.map (Station.fall logic)).all fun s => !s.holds fallen risen) =
      !held logic stations fallen := by
  rw [List.all_map, held, List.not_any_eq_all_not]
  congr 1
  funext s
  simp only [Function.comp, fall_holds]

/-- A low that is too short for a reset is only a low. -/
theorem release_eq (hlow : b.low = true) (h : ∀ s ∈ b.stations, b.fallen < s.timing.resetLow) :
    b.release logic = { b with low := false, risen := 0 } := by
  have hstations : b.stations.map (Station.rise logic b.fallen) = b.stations :=
    (List.map_congr_left fun s hs => if_neg (Nat.not_le.mpr (h s hs))).trans (List.map_id _)
  rw [Bus.release, if_pos hlow, hstations]

theorem fall_driving : (s.fall logic).driving ≠ .presence := by
  unfold Station.fall
  cases logic.pulls s.state
  · exact Driving.noConfusion
  · exact Driving.noConfusion

/-- The line while the stations are in a slot and the master has released it. -/
theorem levelAt_slot {stations : List (Station σ)} {b₁ : Bus σ} {risen : Nat} :
    Bus.levelAt ⟨(stations.map (Station.fall logic)).map (Station.look logic b₁ d), false, c, risen⟩
      t = !held logic stations t := by
  unfold Bus.levelAt Bus.level
  rw [all_look, all_fall, Bool.not_false, Bool.true_and]

/-- A station sees the low of the master, or what the stations do after it. -/
theorem look_slot {stations : List (Station σ)} {risen : Nat} (hsample : s.timing.sample < a + c) :
    Station.look logic ⟨(stations.map (Station.fall logic)).map
        (Station.look logic ⟨stations.map (Station.fall logic), true, 0, risen⟩ a), false, a, 0⟩ c
      (Station.look logic ⟨stations.map (Station.fall logic), true, 0, risen⟩ a (s.fall logic)) =
      s.slot logic stations a := by
  have hd : (s.fall logic).driving ≠ .presence := fall_driving
  rw [Station.slot]
  by_cases hlow : s.timing.sample < a
  · have hfirst : Station.look logic ⟨stations.map (Station.fall logic), true, 0, risen⟩ a
        (s.fall logic) = { s.fall logic with state := logic.slot false s.state } :=
      if_pos ⟨hd, Nat.zero_le _, by rw [Nat.zero_add]; exact hlow⟩
    rw [hfirst, Station.look, if_neg fun hlook => absurd hlook.2.1 (Nat.not_le.mpr hlow),
      decide_eq_false (Nat.not_le.mpr hlow), Bool.false_and]
  · have hfirst : Station.look logic ⟨stations.map (Station.fall logic), true, 0, risen⟩ a
        (s.fall logic) = s.fall logic :=
      if_neg fun hlook => absurd hlook.2.2 (by rw [Nat.zero_add]; exact hlow)
    rw [hfirst, Station.look, if_pos ⟨hd, Nat.not_lt.mp hlow, hsample⟩, levelAt_slot,
      decide_eq_true (Nat.not_lt.mp hlow), Bool.true_and]
    rfl

/-- The bus when the master has released the line in a slot. -/
theorem release_slot (h : b.level = true) (hlong : ∀ s ∈ b.stations, a < s.timing.resetLow) :
    Bus.release logic (Bus.wait logic a (b.drive logic)) =
      ⟨(b.stations.map (Station.fall logic)).map
        (Station.look logic ⟨b.stations.map (Station.fall logic), true, 0, b.risen⟩ a),
        false, a, 0⟩ := by
  have hshort : ∀ s ∈ (Bus.wait logic a (b.drive logic)).stations,
      (Bus.wait logic a (b.drive logic)).fallen < s.timing.resetLow := by
    rw [drive_eq h]
    intro s hs
    obtain ⟨s', hs', rfl⟩ := List.mem_map.mp hs
    obtain ⟨s'', hs'', rfl⟩ := List.mem_map.mp hs'
    rw [look_timing, wait_fallen, Nat.zero_add]
    exact hlong s'' hs''
  rw [release_eq (by rw [drive_eq h]; rfl) hshort, drive_eq h]
  simp only [Bus.wait, Nat.zero_add]

/-- **A slot.** The master holds the line low for the time `a` and leaves it alone for the time
`c`; every station has looked at the line by then. -/
theorem slot_eq (h : b.level = true) (hlong : ∀ s ∈ b.stations, a < s.timing.resetLow)
    (hsample : ∀ s ∈ b.stations, s.timing.sample < a + c) :
    Bus.wait logic c (Bus.release logic (Bus.wait logic a (b.drive logic))) =
      ⟨b.stations.map (Station.slot logic b.stations a), false, a + c, c⟩ := by
  rw [release_slot h hlong, Bus.wait]
  simp only [Nat.zero_add, Bus.mk.injEq, and_true]
  rw [List.map_map, List.map_map]
  exact List.map_congr_left fun s hs => look_slot (hsample s hs)

/-- What the master sees when it has released the line in a slot. -/
theorem slot_level (h : b.level = true) (hlong : ∀ s ∈ b.stations, a < s.timing.resetLow) :
    (Bus.wait logic c (Bus.release logic (Bus.wait logic a (b.drive logic)))).level =
      !held logic b.stations (a + c) := by
  rw [level_wait, release_slot h hlong, levelAt_slot]

/-- Before any hold has ended, the line shows which stations hold it. -/
theorem held_eq (hhold : ∀ s ∈ b.stations, t < s.timing.hold) :
    held logic b.stations t = (b.stations.map Station.state).any logic.pulls := by
  rw [held, List.any_map, Bool.eq_iff_iff, List.any_eq_true, List.any_eq_true]
  refine exists_congr fun s => and_congr_right fun hs => ?_
  rw [decide_eq_true (hhold s hs), Bool.and_true]
  rfl

theorem held_silent (hsilent : ∀ x ∈ b.stations.map Station.state, logic.pulls x = false) :
    held logic b.stations t = false := by
  rw [held, List.any_eq_false]
  intro s hs
  rw [hsilent s.state (List.mem_map_of_mem hs), Bool.false_and]
  exact Bool.false_ne_true

/-! ## Resets -/

/-- In a long low a station sees a low, and then that it was a reset. -/
theorem rise_look {risen : Nat} {stations : List (Station σ)} (hsample : s.timing.sample < a)
    (hreset : s.timing.resetLow ≤ a) :
    Station.rise logic a (Station.look logic ⟨stations, true, 0, risen⟩ a (s.fall logic)) =
      s.restart logic := by
  have hlook : Station.look logic ⟨stations, true, 0, risen⟩ a (s.fall logic) =
      { s.fall logic with state := logic.slot false s.state } :=
    if_pos ⟨fall_driving, Nat.zero_le _, by rw [Nat.zero_add]; exact hsample⟩
  rw [hlook]
  exact if_pos hreset

/-- **A reset.** -/
theorem reset_eq (h : b.level = true) (hreset : ∀ s ∈ b.stations, s.timing.resetLow ≤ a)
    (hsample : ∀ s ∈ b.stations, s.timing.sample < a) :
    Bus.release logic (Bus.wait logic a (b.drive logic)) =
      ⟨b.stations.map (Station.restart logic), false, a, 0⟩ := by
  rw [drive_eq h]
  simp only [Bus.wait, Bus.release, Nat.zero_add, if_true, Bus.mk.injEq, and_true]
  rw [List.map_map, List.map_map]
  exact List.map_congr_left fun s hs => rise_look (hsample s hs) (hreset s hs)

/-- Stations that answer a reset do not look at the line. -/
theorem wait_restart {stations : List (Station σ)} :
    Bus.wait logic d ⟨stations.map (Station.restart logic), false, a, c⟩ =
      ⟨stations.map (Station.restart logic), false, a + d, c + d⟩ := by
  refine wait_eq fun s hs => Or.inl ?_
  obtain ⟨s', -, rfl⟩ := List.mem_map.mp hs
  rfl

/-- The master sees the answers of the stations. -/
theorem presence_level {stations : List (Station σ)} :
    Bus.level ⟨stations.map (Station.restart logic), false, a, c⟩ = stations.all fun s =>
      !decide (s.timing.presenceAfter ≤ c ∧ c < s.timing.presenceAfter + s.timing.presenceFor) := by
  rw [Bus.level, List.all_map]
  rfl

end MyLibraries.SlotBus
