import Mathlib.Data.List.Induction
import Mathlib.Tactic.SplitIfs
import MyLibraries.Apds9960.Model

/-!
# The directions of `apds9960_gesture`

The two channels of an axis are alike in all but the comparisons of `proccess_gesture`:
exchanging them in every sample keeps the samples valid and negates the difference of
their ratios. The comparisons are of the differences with their signs, where the larger
one in magnitude is meant: an axis whose difference is positive wins over one that did
not change, but the same difference with the other sign does not. So whenever a direction
is reported, exchanging the channels of one of the axes gives something else than the
opposite direction (`gesture_symmetric_iff`).
-/

namespace MyLibraries.Apds9960

open Device

/-- Up and down exchanged. -/
def GestureData.swapUd (g : GestureData) : GestureData := { g with up := g.down, down := g.up }

/-- Left and right exchanged. -/
def GestureData.swapLr (g : GestureData) : GestureData :=
  { g with left := g.right, right := g.left }

def Gesture.swapUd : Gesture → Gesture
  | .dirUp => .dirDown
  | .dirDown => .dirUp
  | g => g

def Gesture.swapLr : Gesture → Gesture
  | .dirLeft => .dirRight
  | .dirRight => .dirLeft
  | g => g

/-- The bytes of a sample. -/
def GestureData.bytes (g : GestureData) : List UInt8 := [g.up, g.down, g.left, g.right]

/-- An access that takes a sample from the FIFO. -/
def sampleAccess (g : GestureData) : Access Port (List UInt8) :=
  .read (.reg gfifoUReg 4) g.bytes

/-- The sample that an access takes from the FIFO. -/
def sampleOf : Access Port (List UInt8) → Option GestureData
  | .read (.reg addr 4) [up, down, left, right] =>
    if addr = gfifoUReg then some ⟨up, down, left, right⟩ else none
  | _ => none

/-- The samples of a call. -/
def samples (t : List (Access Port (List UInt8))) : List GestureData := t.filterMap sampleOf

/-- The accesses of a call, with each sample replaced. -/
def resample (f : GestureData → GestureData) (t : List (Access Port (List UInt8))) :
    List (Access Port (List UInt8)) :=
  t.map fun x => match sampleOf x with
    | some g => sampleAccess (f g)
    | none => x

/-- How much one channel is above the other, in percent of both. -/
def percent (a b : UInt8) : Int := (((a.toNat : Int) - b.toNat) * 100).tdiv (a.toNat + b.toNat)

/-- The changes of the two axes from one sample to another. -/
def changeUd (first last : GestureData) : Int :=
  percent last.up last.down - percent first.up first.down

def changeLr (first last : GestureData) : Int :=
  percent last.left last.right - percent first.left first.right

/-- `P` holds of the first and the last of the valid samples, when there are two. -/
def OfEnds (P : GestureData → GestureData → Prop) (gs : List GestureData) : Prop :=
  ∀ first ∈ (gs.filter validateGestData).head?,
    ∀ last ∈ (gs.filter validateGestData).tail.getLast?, P first last

instance {P : GestureData → GestureData → Prop} [DecidableRel P] (gs : List GestureData) :
    Decidable (OfEnds P gs) :=
  inferInstanceAs (Decidable (∀ first ∈ _, ∀ last ∈ _, P first last))

/-- What a call answers for its samples, when it answers `res` without any. -/
def outcome (res : Gesture) (gs : List GestureData) : Gesture :=
  match gs.foldl keep (none, none) with
  | (some first, some last) => direction (changeUd first last) (changeLr first last)
  | _ => res

variable {dev : Apds} {polls : Nat} {t : List (Access Port (List UInt8))} {g : Gesture}
  {gs : List GestureData} {kept : Kept} {f : GestureData → GestureData}
  {first last : GestureData} {res : Gesture}

/-! ## The comparisons -/

theorem percent_swap (a b : UInt8) : percent b a = -percent a b := by
  have hneg : ((b.toNat : Int) - a.toNat) * 100 = -(((a.toNat : Int) - b.toNat) * 100) := by omega
  rw [percent, percent, hneg, Int.neg_tdiv, Int.add_comm (b.toNat : Int)]

/-- Negating the change of the up and down axis turns the direction on that axis only if
the change is small, or smaller than that of the other axis. -/
theorem direction_neg_ud (u l : Int) :
    direction (-u) l = (direction u l).swapUd ↔ u.natAbs ≤ 10 ∨ u.natAbs < l.natAbs := by
  unfold direction gestureThresholdMin
  split_ifs <;> simp only [Gesture.swapUd, true_iff, reduceCtorEq, false_iff, not_or] <;> omega

theorem direction_neg_lr (u l : Int) :
    direction u (-l) = (direction u l).swapLr ↔ l.natAbs ≤ 10 ∨ l.natAbs < u.natAbs := by
  unfold direction gestureThresholdMin
  split_ifs <;> simp only [Gesture.swapLr, true_iff, reduceCtorEq, false_iff, not_or] <;> omega

/-! ## The samples that are kept -/

theorem validate_swapUd (g : GestureData) : validateGestData g.swapUd = validateGestData g := by
  simp only [validateGestData, GestureData.swapUd]
  ac_rfl

theorem validate_swapLr (g : GestureData) : validateGestData g.swapLr = validateGestData g := by
  simp only [validateGestData, GestureData.swapLr]
  ac_rfl

/-- The loop keeps the first and the last of the valid samples. -/
theorem foldl_keep (gs : List GestureData) : gs.foldl keep (none, none) =
    ((gs.filter validateGestData).head?, (gs.filter validateGestData).tail.getLast?) := by
  induction gs using List.reverseRecOn with
  | nil => rfl
  | append_singleton gs g ih =>
    rw [List.foldl_append, ih, List.filter_append]
    show keep _ g = _
    cases hg : validateGestData g with
    | false => simp [keep, hg]
    | true =>
      cases hvalid : gs.filter validateGestData with
      | nil => simp [keep, hg]
      | cons first rest => simp [keep, hg]

/-- Samples that are replaced by such that are valid when they are are kept so. -/
theorem foldl_keep_map (hf : ∀ g, validateGestData (f g) = validateGestData g)
    (gs : List GestureData) : (gs.map f).foldl keep (none, none) =
      ((gs.foldl keep (none, none)).1.map f, (gs.foldl keep (none, none)).2.map f) := by
  have hfilter : (gs.map f).filter validateGestData = (gs.filter validateGestData).map f := by
    rw [List.filter_map]
    congr 2
    exact funext hf
  rw [foldl_keep, foldl_keep, hfilter, List.head?_map, ← List.map_tail, List.getLast?_map]

theorem ofEnds_iff {P : GestureData → GestureData → Prop} : OfEnds P gs ↔
    ∀ first ∈ (gs.foldl keep (none, none)).1, ∀ last ∈ (gs.foldl keep (none, none)).2,
      P first last := by
  rw [foldl_keep]
  rfl

/-- What is kept is valid. -/
theorem valid_of_kept {g : GestureData} (h : g ∈ (gs.foldl keep (none, none)).1 ∨
    g ∈ (gs.foldl keep (none, none)).2) : validateGestData g := by
  rw [foldl_keep] at h
  have hmem : g ∈ gs.filter validateGestData := by
    rcases h with h | h
    · exact List.mem_of_mem_head? h
    · exact List.mem_of_mem_tail (List.mem_of_getLast? h)
  exact (List.mem_filter.mp hmem).2

/-! ## The evaluation -/

theorem ratio_pos {a b : UInt8} (h : 0 < a.toNat + b.toNat) :
    ratio a b = some (percent a b) := if_neg (by omega)

/-- The channels of valid samples divide. -/
theorem proccessGesture_valid (hfirst : validateGestData first) (hlast : validateGestData last) :
    proccessGesture first last = some (direction (changeUd first last) (changeLr first last)) := by
  simp only [validateGestData, gestureThresholdMin, Bool.and_eq_true, decide_eq_true_eq,
    gt_iff_lt] at hfirst hlast
  obtain ⟨⟨⟨⟨⟨⟨⟨hup, -⟩, hleft⟩, -⟩, -⟩, -⟩, -⟩, -⟩ := hfirst
  obtain ⟨⟨⟨⟨⟨⟨⟨hup', -⟩, hleft'⟩, -⟩, -⟩, -⟩, -⟩, -⟩ := hlast
  simp only [proccessGesture, changeUd, changeLr, Option.bind_eq_bind]
  rw [ratio_pos (by omega), ratio_pos (by omega), ratio_pos (by omega), ratio_pos (by omega)]
  rfl

theorem does_evaluate :
    Does (evaluate res (gs.foldl keep (none, none))) t g ↔ t = [] ∧ g = outcome res gs := by
  unfold outcome
  have hvalid := @valid_of_kept gs
  revert hvalid
  generalize gs.foldl keep (none, none) = kept
  intro hvalid
  obtain ⟨first, last⟩ := kept
  cases first with
  | none => exact and_congr Iff.rfl eq_comm
  | some first =>
    cases last with
    | none => exact and_congr Iff.rfl eq_comm
    | some last =>
      have hprocess := proccessGesture_valid (hvalid (Or.inl rfl)) (hvalid (Or.inr rfl))
      simp only [evaluate, hprocess]
      exact and_congr Iff.rfl eq_comm

/-! ## The accesses of a call -/

@[simp] theorem sampleOf_sampleAccess (s : GestureData) : sampleOf (sampleAccess s) = some s := rfl

theorem sampleOf_eq_some {x : Access Port (List UInt8)} {s : GestureData}
    (h : sampleOf x = some s) : x = sampleAccess s := by
  unfold sampleOf at h
  split at h
  · split at h
    · rename_i haddr
      cases h
      rw [haddr]
      rfl
    · cases h
  · cases h

/-- A program that does not read the FIFO takes no sample. -/
theorem samples_quiet {α : Type} {p : Io α} {a : α} (hp : Reads (· ≠ .reg gfifoUReg 4) p)
    (hd : Does p t a) : ∀ x ∈ t, sampleOf x = none := by
  intro x hx
  cases hs : sampleOf x with
  | none => rfl
  | some s =>
    rw [sampleOf_eq_some hs] at hx
    exact absurd rfl (hd.reads hp _ _ hx)

theorem resample_quiet (h : ∀ x ∈ t, sampleOf x = none) : resample f t = t := by
  have hid : resample f t = t.map id := by
    apply List.map_congr_left
    intro x hx
    rw [h x hx]
    rfl
  rw [hid, List.map_id]

theorem reads_readByte {S : Port → Prop} {port : Port} (h : S port) : Reads S (readByte port) := by
  refine ⟨h, fun val => ?_⟩
  dsimp only
  split <;> trivial

section
variable {S : Port → Prop} {bit : UInt8} (hpin : S .checkIrq) (hstatus : S (.reg statusReg 1))
include hpin hstatus

theorem reads_checkIrq (dev : Apds) (bit : UInt8) : Reads S (checkIrq dev bit) := by
  unfold checkIrq
  apply reads_bind
  · unfold pinRaised
    split
    · exact reads_readByte hpin
    · trivial
  · intro raised
    split
    · trivial
    · exact reads_bind (reads_readByte hstatus) fun _ => trivial

theorem reads_pollIrq (dev : Apds) (bit : UInt8) (polls : Nat) :
    Reads S (pollIrq dev bit polls) := by
  induction polls with
  | zero => trivial
  | succ polls ih =>
    refine reads_bind (reads_checkIrq hpin hstatus dev bit) fun ret => ?_
    split
    · exact ih
    · trivial

theorem reads_waitForIrq (hwait : S (.waitForIrq bit)) (dev : Apds) (polls : Nat) :
    Reads S (waitForIrq dev polls bit) := by
  unfold waitForIrq
  split
  · exact reads_readByte hwait
  · exact reads_pollIrq hpin hstatus dev bit polls

end

theorem reads_awaitFifo (dev : Apds) (polls : Nat) :
    Reads (· ≠ .reg gfifoUReg 4) (awaitFifo dev polls) := by
  unfold awaitFifo
  refine reads_bind (by trivial) fun _ =>
    reads_bind (reads_waitForIrq (by decide) (by decide) (by decide) dev polls) fun ret => ?_
  split
  · trivial
  · refine reads_bind (reads_readByte (by decide)) fun gvalid => ?_
    split
    · trivial
    · refine reads_bind (reads_readByte (by decide)) fun fifoLevel => ?_
      split <;> trivial

/-- Before the loop there is no direction. -/
theorem awaitFifo_res {level : UInt8} (hd : Does (awaitFifo dev polls) t (res, level)) :
    res = .noActivity ∨ res = .errDataInvalid ∨ res = .errFifoEmpty := by
  unfold awaitFifo at hd
  obtain ⟨_, t₂, _, -, -, hd⟩ := does_bind.mp hd
  obtain ⟨_, t₃, ret, -, -, hd⟩ := does_bind.mp hd
  split at hd
  · cases hd.2
    exact Or.inl rfl
  · obtain ⟨_, t₄, gvalid, -, -, hd⟩ := does_bind.mp hd
    split at hd
    · cases hd.2
      exact Or.inr (Or.inl rfl)
    · obtain ⟨_, t₅, fifoLevel, -, -, hd⟩ := does_bind.mp hd
      split at hd
      · cases hd.2
        exact Or.inr (Or.inr rfl)
      · cases hd.2
        exact Or.inl rfl

theorem does_readSample {s : GestureData} : Does readSample t s ↔ t = [sampleAccess s] := by
  unfold readSample
  constructor
  · rintro ⟨val, t', rfl, hd⟩
    dsimp only at hd
    split at hd
    · obtain ⟨rfl, rfl⟩ := hd
      rfl
    · cases hd
  · rintro rfl
    exact ⟨s.bytes, [], rfl, rfl, rfl⟩

/-- The loop takes as many samples as the level says. -/
theorem does_readFifo {level : Nat} {kept' : Kept} : Does (readFifo level kept) t kept' ↔
    ∃ gs : List GestureData, gs.length = level ∧ t = gs.map sampleAccess ∧
      kept' = gs.foldl keep kept := by
  induction level generalizing t kept with
  | zero =>
    constructor
    · rintro ⟨rfl, rfl⟩
      exact ⟨[], rfl, rfl, rfl⟩
    · rintro ⟨gs, hlen, rfl, rfl⟩
      rw [List.length_eq_zero_iff.mp hlen]
      exact ⟨rfl, rfl⟩
  | succ level ih =>
    rw [readFifo, does_bind]
    constructor
    · rintro ⟨t₁, t₂, s, rfl, hs, hrest⟩
      obtain ⟨gs, hlen, rfl, rfl⟩ := ih.mp hrest
      rw [does_readSample.mp hs]
      exact ⟨s :: gs, by rw [List.length_cons, hlen], rfl, rfl⟩
    · rintro ⟨gs, hlen, rfl, rfl⟩
      cases gs with
      | nil => cases hlen
      | cons s gs =>
        refine ⟨[sampleAccess s], gs.map sampleAccess, s, rfl, does_readSample.mpr rfl, ?_⟩
        exact ih.mpr ⟨gs, Nat.succ.inj hlen, rfl, rfl⟩

/-- **A call**: what comes before the samples, the samples, and the end. -/
theorem does_gesture : Does (apds9960Gesture dev polls) t g ↔
    ∃ (before after : List (Access Port (List UInt8))) (res : Gesture) (level : UInt8)
      (gs : List GestureData),
      t = before ++ (gs.map sampleAccess ++ after) ∧
        Does (awaitFifo dev polls) before (res, level) ∧ gs.length = level.toNat ∧
        Does sleepMode after () ∧ g = outcome res gs := by
  unfold apds9960Gesture
  rw [does_bind]
  constructor
  · rintro ⟨before, t₂, ⟨res, level⟩, rfl, hawait, hd⟩
    obtain ⟨t₃, t₄, kept, rfl, hfifo, hd⟩ := does_bind.mp hd
    obtain ⟨gs, hlen, rfl, rfl⟩ := does_readFifo.mp hfifo
    obtain ⟨after, t₆, _, rfl, hsleep, hd⟩ := does_bind.mp hd
    obtain ⟨rfl, rfl⟩ := does_evaluate.mp hd
    rw [List.append_nil]
    exact ⟨before, after, res, level, gs, rfl, hawait, hlen, hsleep, rfl⟩
  · rintro ⟨before, after, res, level, gs, rfl, hawait, hlen, hsleep, rfl⟩
    refine ⟨before, _, (res, level), rfl, hawait, does_bind.mpr ?_⟩
    refine ⟨_, after, _, rfl, does_readFifo.mpr ⟨gs, hlen, rfl, rfl⟩, does_bind.mpr ?_⟩
    exact ⟨after, [], (), (List.append_nil _).symm, hsleep, does_evaluate.mpr ⟨rfl, rfl⟩⟩

/-- The samples of a call are those of its loop. -/
theorem samples_call {before after : List (Access Port (List UInt8))} {level : UInt8}
    (hawait : Does (awaitFifo dev polls) before (res, level)) (hsleep : Does sleepMode after ())
    (gs : List GestureData) : samples (before ++ (gs.map sampleAccess ++ after)) = gs := by
  have hbefore := samples_quiet (reads_awaitFifo dev polls) hawait
  have hafter : ∀ x ∈ after, sampleOf x = none :=
    samples_quiet (by unfold sleepMode writeReg; trivial) hsleep
  rw [samples, List.filterMap_append, List.filterMap_append,
    List.filterMap_eq_nil_iff.mpr hbefore, List.filterMap_eq_nil_iff.mpr hafter,
    List.filterMap_map, List.nil_append, List.append_nil]
  exact List.filterMap_some

/-! ## Exchanged channels -/

/-- A call with its samples replaced: as long as they stay valid the answer changes with
the changes of the two axes only. -/
theorem does_resample (hf : ∀ s, validateGestData (f s) = validateGestData s)
    {turn : Gesture → Gesture} (hturn : ∀ res, res = .noActivity ∨ res = .errDataInvalid ∨
      res = .errFifoEmpty → turn res = res) {P : GestureData → GestureData → Prop}
    (hP : ∀ first last, direction (changeUd (f first) (f last)) (changeLr (f first) (f last)) =
      turn (direction (changeUd first last) (changeLr first last)) ↔ P first last)
    (hd : Does (apds9960Gesture dev polls) t g) :
    Does (apds9960Gesture dev polls) (resample f t) (turn g) ↔ OfEnds P (samples t) := by
  obtain ⟨before, after, res, level, gs, rfl, hawait, hlen, hsleep, rfl⟩ := does_gesture.mp hd
  have hbefore := samples_quiet (reads_awaitFifo dev polls) hawait
  have hafter : ∀ x ∈ after, sampleOf x = none :=
    samples_quiet (by unfold sleepMode writeReg; trivial) hsleep
  have hsamples := samples_call hawait hsleep gs
  have hresample : resample f (before ++ (gs.map sampleAccess ++ after)) =
      before ++ ((gs.map f).map sampleAccess ++ after) := by
    rw [resample, List.map_append, List.map_append, ← resample, ← resample, ← resample,
      resample_quiet hbefore, resample_quiet hafter, resample, List.map_map, List.map_map]
    rfl
  have hdoes : Does (apds9960Gesture dev polls) (before ++ ((gs.map f).map sampleAccess ++ after))
      (outcome res (gs.map f)) :=
    does_gesture.mpr ⟨before, after, res, level, gs.map f, rfl, hawait,
      by rw [List.length_map, hlen], hsleep, rfl⟩
  have hiff : Does (apds9960Gesture dev polls) (resample f
      (before ++ (gs.map sampleAccess ++ after))) (turn (outcome res gs)) ↔
      outcome res (gs.map f) = turn (outcome res gs) := by
    rw [hresample]
    exact ⟨does_unique hdoes, fun heq => heq ▸ hdoes⟩
  rw [hiff, hsamples, ofEnds_iff, outcome, outcome, foldl_keep_map hf]
  generalize gs.foldl keep (none, none) = kept
  obtain ⟨first, last⟩ := kept
  cases first with
  | none => simpa using (hturn res (awaitFifo_res hawait)).symm
  | some first =>
    cases last with
    | none => simpa using (hturn res (awaitFifo_res hawait)).symm
    | some last => simpa using hP first last

/-- **Up and down exchanged.** -/
theorem does_swapUd (hd : Does (apds9960Gesture dev polls) t g) :
    Does (apds9960Gesture dev polls) (resample GestureData.swapUd t) g.swapUd ↔
      OfEnds (fun first last => (changeUd first last).natAbs ≤ 10 ∨
        (changeUd first last).natAbs < (changeLr first last).natAbs) (samples t) := by
  refine does_resample validate_swapUd (by rintro res (rfl | rfl | rfl) <;> rfl)
    (fun first last => ?_) hd
  have hud : changeUd first.swapUd last.swapUd = -changeUd first last := by
    simp only [changeUd, GestureData.swapUd, percent_swap last.up, percent_swap first.up]
    omega
  rw [hud]
  exact direction_neg_ud _ _

/-- **Left and right exchanged.** -/
theorem does_swapLr (hd : Does (apds9960Gesture dev polls) t g) :
    Does (apds9960Gesture dev polls) (resample GestureData.swapLr t) g.swapLr ↔
      OfEnds (fun first last => (changeLr first last).natAbs ≤ 10 ∨
        (changeLr first last).natAbs < (changeUd first last).natAbs) (samples t) := by
  refine does_resample validate_swapLr (by rintro res (rfl | rfl | rfl) <;> rfl)
    (fun first last => ?_) hd
  have hlr : changeLr first.swapLr last.swapLr = -changeLr first last := by
    simp only [changeLr, GestureData.swapLr, percent_swap last.left, percent_swap first.left]
    omega
  rw [hlr]
  exact direction_neg_lr _ _

/-- **When both exchanges turn the direction**: when there is none to turn. -/
theorem gesture_symmetric_iff (dev : Apds) (polls : Nat) (t : List (Access Port (List UInt8)))
    (g : Gesture) (hd : Does (apds9960Gesture dev polls) t g) :
    (Does (apds9960Gesture dev polls) (resample GestureData.swapUd t) g.swapUd ∧
        Does (apds9960Gesture dev polls) (resample GestureData.swapLr t) g.swapLr) ↔
      OfEnds (fun first last => (changeUd first last).natAbs ≤ 10 ∧
        (changeLr first last).natAbs ≤ 10) (samples t) := by
  rw [does_swapUd hd, does_swapLr hd]
  simp only [OfEnds]
  constructor
  · rintro ⟨hud, hlr⟩ first hfirst last hlast
    have := hud first hfirst last hlast
    have := hlr first hfirst last hlast
    omega
  · intro h
    constructor
    · intro first hfirst last hlast
      exact Or.inl (h first hfirst last hlast).1
    · intro first hfirst last hlast
      exact Or.inl (h first hfirst last hlast).2

/-- What the sensor answers to a hand that moves up: an interrupt, two samples, and these. -/
def handUp (n : Nat) : List UInt8 :=
  [[0x04], [0x01], [2], [100, 100, 100, 100], [150, 50, 100, 100]].getD n []

/-- A hand that hardly moves: both samples count, and the change between them is 5. -/
theorem gesture_symmetric_at_rest : ∃ t,
    samples t = [⟨100, 100, 100, 100⟩, ⟨105, 95, 100, 100⟩] ∧
      Does (apds9960Gesture ⟨false, false⟩ 1) t .errDataInvalid ∧
      Does (apds9960Gesture ⟨false, false⟩ 1) (resample GestureData.swapUd t) .errDataInvalid ∧
      Does (apds9960Gesture ⟨false, false⟩ 1) (resample GestureData.swapLr t) .errDataInvalid := by
  have hrun : run (fun n => if n = 4 then [105, 95, 100, 100] else handUp n)
      (apds9960Gesture ⟨false, false⟩ 1) 0 = some (_, .errDataInvalid) := rfl
  have hd := does_of_run hrun
  exact ⟨_, rfl, hd, (gesture_symmetric_iff _ _ _ _ hd).mpr (by decide)⟩

/-- The hand that moves up gives `DIR_UP`, and one that moves down not `DIR_DOWN`. -/
theorem hand_down_missed : ∃ t, Does (apds9960Gesture ⟨false, false⟩ 1) t .dirUp ∧
    Does (apds9960Gesture ⟨false, false⟩ 1) (resample GestureData.swapUd t) .errDataInvalid ∧
    ¬Does (apds9960Gesture ⟨false, false⟩ 1) (resample GestureData.swapUd t) .dirDown := by
  have hrun : run handUp (apds9960Gesture ⟨false, false⟩ 1) 0 = some (_, .dirUp) := rfl
  have hrunDown : run (fun n => if n = 4 then [50, 150, 100, 100] else handUp n)
      (apds9960Gesture ⟨false, false⟩ 1) 0 = some (_, .errDataInvalid) := rfl
  have hdown := does_of_run hrunDown
  exact ⟨_, does_of_run hrun, hdown, fun h => by cases does_unique hdown h⟩

end MyLibraries.Apds9960
